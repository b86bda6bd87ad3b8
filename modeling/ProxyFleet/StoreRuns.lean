import ProxyFleet.ObservedRuns
import ProxyFleet.StoreStatements

/-!
# Runs of database writes

A write is one statement or one transaction, so every interleaving of the
service's operations is a run of writes. A failed transaction leaves the store
as it was. One inversion lemma says what a write can do to a row.
-/
namespace ProxyFleet

variable {F : Type}

inductive Write (F : Type) where
  | ingestOne (now : Time) (proxy : ParsedProxy) (newId : String) (generation : ℤ)
  | claimRow (now leaseUntil : Time) (id : String)
  | applyTestEvent (now : Time) (event : TestEventInput F) (cadence : Cadence) (draw : ℕ)
  | releaseTestLease (id : String)
  | markWaitingForPort (now : Time) (id : String) (retryAfter : Time)
  | beginRefresh (now : Time) (runId : String) (sourceCount : ℕ)
  | recordFinishedRun (now : Time) (runId : String) (status : RefreshStatus)
      (successfulSources parsedCount : ℕ)
  | reconcile (now : Time) (generation : ℤ) (minimumMissingGenerations : ℕ)
  | copyCachedSourceGeneration (sourceName : String) (generation : ℤ)
  | recordSourceSuccess (now : Time) (name url : String) (etag lastModified : Option String)
  | recordSourceFailure (name url : String)
  | recordSystemEvent (event : SystemEvent)
  | reviveDormant (now : Time)
  | reviveNode (now : Time) (id : String)
  | scheduleManualTest (now : Time) (id : String)
  | cleanupRetired (now : Time)
  | seedLegacyDownloadLeases (now : Time) (leaseHours : ℕ)
  | setMainPort (id : String) (port : ℕ)
  | clearMainPort (id : String)
  | clearStaleRuntimePorts
  | claimMetadataRefresh (now : Time) (id : String) (cacheTtl lease : Time)
  | recordExitMetadata (now : Time) (id : String)
  | releaseMetadataLease (id : String)
  | setQuotaDebt (debt : QueueDebt F)

/-- The store after a transaction, unchanged when it failed. -/
def Store.commit (s : Store F) : Except String (Store F) → Store F
  | .ok s' => s'
  | .error _ => s

@[simp] theorem Store.commit_ok (s s' : Store F) : s.commit (.ok s') = s' := rfl

@[simp] theorem Store.commit_error (s : Store F) (e : String) : s.commit (.error e) = s := rfl

variable [F64 F]

def Store.write (s : Store F) : Write F → Store F
  | .ingestOne now proxy newId generation => s.commit (s.ingestOne now proxy newId generation)
  | .claimRow now leaseUntil id => s.claimRow now leaseUntil id
  | .applyTestEvent now event cadence draw =>
      s.commit ((s.applyTestEvent now event cadence draw).map Prod.fst)
  | .releaseTestLease id => s.releaseTestLease id
  | .markWaitingForPort now id retryAfter => s.markWaitingForPort now id retryAfter
  | .beginRefresh now runId sourceCount => s.beginRefresh now runId sourceCount
  | .recordFinishedRun now runId status successfulSources parsedCount =>
      s.recordFinishedRun now runId status successfulSources parsedCount
  | .reconcile now generation minimum => s.reconcile now generation minimum
  | .copyCachedSourceGeneration sourceName generation =>
      (s.copyCachedSourceGeneration sourceName generation).1
  | .recordSourceSuccess now name url etag lastModified =>
      s.recordSourceSuccess now name url etag lastModified
  | .recordSourceFailure name url => s.recordSourceFailure name url
  | .recordSystemEvent event => s.recordSystemEvent event
  | .reviveDormant now => s.reviveDormant now
  | .reviveNode now id => s.commit (s.reviveNode now id)
  | .scheduleManualTest now id => s.commit (s.scheduleManualTest now id)
  | .cleanupRetired now => s.cleanupRetired now
  | .seedLegacyDownloadLeases now leaseHours => s.seedLegacyDownloadLeases now leaseHours
  | .setMainPort id port => s.setMainPort id port
  | .clearMainPort id => s.clearMainPort id
  | .clearStaleRuntimePorts => s.clearStaleRuntimePorts
  | .claimMetadataRefresh now id cacheTtl lease => s.claimMetadataRefresh now id cacheTtl lease
  | .recordExitMetadata now id => s.recordExitMetadata now id
  | .releaseMetadataLease id => s.releaseMetadataLease id
  | .setQuotaDebt debt => { s with quotaDebt := some debt }

/-- The store after a run of writes. -/
abbrev Store.writes (s : Store F) (ws : List (Write F)) : Store F :=
  ObservedRuns.run Store.write s ws

theorem Store.writes_append (s : Store F) (ws ws' : List (Write F)) :
    s.writes (ws ++ ws') = (s.writes ws).writes ws' := ObservedRuns.run_append _ s ws ws'

/-- The store in which a fresh observation is scored: the log with the event added. -/
def Store.scored (s : Store F) (now : Time) (event : TestEventInput F) : F × F :=
  (s.recordTestEvent now event).effectiveEvidence event.proxyId now

/-- The event changes the store: its node exists and the observation is new. -/
def Store.accepts (s : Store F) (event : TestEventInput F) : Bool :=
  (s.findNode event.proxyId).isSome && !s.alreadyApplied event

/-- The rows of `s` that a write rewrites in a column other than ports and exit metadata. -/
def Write.Selects (s : Store F) (row : Node F) : Write F → Prop
  | .ingestOne _ proxy _ _ => row.configHash = proxy.configHash
  | .claimRow now _ id => row.id = id ∧ row.leaseFree now = true
  | .applyTestEvent _ event _ _ => row.id = event.proxyId ∧ s.accepts event = true
  | .releaseTestLease id => row.id = id ∧ row.lifecycleState = .testing
  | .markWaitingForPort _ id _ => row.id = id ∧ row.structurallyValid = true
  | .reconcile now generation minimum =>
      row.missedBy generation = true ∨ row.retirable now minimum = true
  | .copyCachedSourceGeneration sourceName generation =>
      (s.previousGeneration sourceName generation).isSome = true ∧
        row.configHash ∈
          (s.copyCachedSourceGeneration sourceName generation).1.memberHashes sourceName generation
  | .reviveDormant _ => row.lifecycleState = .dormant ∧ row.structurallyValid = true
  | .reviveNode _ id => row.id = id ∧ row.revivable = true
  | .scheduleManualTest _ id => row.id = id ∧ row.lifecycleState ≠ .testing
  | .seedLegacyDownloadLeases _ _ => s.legacySeeded = false ∧ row.legacySeedable = true
  | _ => False

/-- What one write can do to one row of the store `s`. -/
inductive RowStep (s : Store F) : Write F → Node F → Node F → Prop
  | kept {w} (row : Node F) (unselected : ¬ w.Selects s row) : RowStep s w row row
  | reingested {now proxy newId generation} (row : Node F)
      (hash : row.configHash = proxy.configHash) :
      RowStep s (.ingestOne now proxy newId generation) row (row.reingested now proxy generation)
  | claimed {now leaseUntil id} (row : Node F) (own : row.id = id)
      (free : row.leaseFree now = true) :
      RowStep s (.claimRow now leaseUntil id) row (row.claimed leaseUntil)
  | applied {now event cadence draw} (row : Node F) (own : row.id = event.proxyId)
      (fresh : s.accepts event = true) :
      RowStep s (.applyTestEvent now event cadence draw) row
        (row.applyEvent (s.scored now event) event cadence now draw)
  | released {id} (row : Node F) (own : row.id = id) (testing : row.lifecycleState = .testing) :
      RowStep s (.releaseTestLease id) row row.released
  | waiting {now id retryAfter} (row : Node F) (own : row.id = id)
      (valid : row.structurallyValid = true) :
      RowStep s (.markWaitingForPort now id retryAfter) row (row.waiting now retryAfter)
  | missed {now generation minimum} (row : Node F) (unseen : row.missedBy generation = true)
      (kept : row.missed.retirable now minimum = false) :
      RowStep s (.reconcile now generation minimum) row row.missed
  | missedRetired {now generation minimum} (row : Node F) (unseen : row.missedBy generation = true)
      (out : row.missed.retirable now minimum = true) :
      RowStep s (.reconcile now generation minimum) row (row.missed.retired now)
  | retired {now generation minimum} (row : Node F) (seen : row.missedBy generation = false)
      (out : row.retirable now minimum = true) :
      RowStep s (.reconcile now generation minimum) row (row.retired now)
  | seenAgain {sourceName generation} (row : Node F)
      (cached : (s.previousGeneration sourceName generation).isSome = true)
      (member : row.configHash ∈
        (s.copyCachedSourceGeneration sourceName generation).1.memberHashes sourceName generation) :
      RowStep s (.copyCachedSourceGeneration sourceName generation) row (row.seenAgain generation)
  | dormantRevived {now} (row : Node F) (dormant : row.lifecycleState = .dormant)
      (valid : row.structurallyValid = true) :
      RowStep s (.reviveDormant now) row (row.dormantRevived now)
  | revived {now id} (row : Node F) (own : row.id = id) (revivable : row.revivable = true) :
      RowStep s (.reviveNode now id) row (row.revived now)
  | scheduled {now id} (row : Node F) (own : row.id = id)
      (idle : row.lifecycleState ≠ .testing) :
      RowStep s (.scheduleManualTest now id) row { row with nextTestAt := some now }
  | seeded {now leaseHours} (row : Node F) (seedable : row.legacySeedable = true) :
      RowStep s (.seedLegacyDownloadLeases now leaseHours) row
        { row with publicationLeaseUntil := some (now + hours (max leaseHours 1)) }
  | port {w} (row : Node F) (port : Option ℕ) (unselected : ¬ w.Selects s row) :
      RowStep s w row { row with mainPort := port }
  | metadata {w} (row : Node F) (fetched lease : Option Time) (unselected : ¬ w.Selects s row) :
      RowStep s w row { row with exitInfoFetchedAt := fetched, metadataLeaseUntil := lease }

/-- The row that a write inserts into the store `s`: a new identity under a new key. -/
inductive Inserts (s : Store F) : Write F → Node F → Prop
  | ingested {now proxy newId generation} (id : ∀ row ∈ s.nodes, row.id ≠ newId)
      (hash : ∀ row ∈ s.nodes, row.configHash ≠ proxy.configHash) :
      Inserts s (.ingestOne now proxy newId generation)
        (Node.ingested now proxy newId generation)

namespace Store

omit [F64 F] in
theorem mem_updateNodes {s : Store F} {guard : Node F → Bool} {f : Node F → Node F}
    {row' : Node F} : row' ∈ (s.updateNodes guard f).nodes ↔
      ∃ row ∈ s.nodes, (guard row = true ∧ row' = f row) ∨ (guard row = false ∧ row' = row) :=
  RowUpdates.mem_updateWhere

omit [F64 F] in
@[simp] theorem insertMember_nodes (s : Store F) (member : GenerationMember) :
    (s.insertMember member).nodes = s.nodes := by
  unfold insertMember
  split <;> rfl

omit [F64 F] in
@[simp] theorem foldl_insertMember_nodes {α : Type} (toMember : α → GenerationMember)
    (items : List α) (s : Store F) :
    (items.foldl (fun t item => t.insertMember (toMember item)) s).nodes = s.nodes := by
  induction items generalizing s with
  | nil => rfl
  | cons item items ih => simp [ih]

omit [F64 F] in
@[simp] theorem recordSourceSuccess_nodes (s : Store F) (now : Time) (name url : String)
    (etag lastModified : Option String) :
    (s.recordSourceSuccess now name url etag lastModified).nodes = s.nodes := by
  unfold recordSourceSuccess
  split <;> rfl

omit [F64 F] in
@[simp] theorem recordSourceFailure_nodes (s : Store F) (name url : String) :
    (s.recordSourceFailure name url).nodes = s.nodes := by
  unfold recordSourceFailure
  split <;> rfl

omit [F64 F] in
/-- What is known of a source has no part in members and generations. -/
theorem recordSourceSuccess_upstream (s : Store F) (now : Time) (name url : String)
    (etag lastModified : Option String) :
    (s.recordSourceSuccess now name url etag lastModified).members = s.members ∧
      (s.recordSourceSuccess now name url etag lastModified).refreshRuns = s.refreshRuns := by
  unfold recordSourceSuccess
  split <;> exact ⟨rfl, rfl⟩

omit [F64 F] in
theorem recordSourceFailure_upstream (s : Store F) (name url : String) :
    (s.recordSourceFailure name url).members = s.members ∧
      (s.recordSourceFailure name url).refreshRuns = s.refreshRuns := by
  unfold recordSourceFailure
  split <;> exact ⟨rfl, rfl⟩

omit [F64 F] in
/-- Rejections are events of the system only. -/
theorem exists_recordInvalidConfigRejections (s : Store F) (now : Time) (source : String)
    (rejected : List String) : ∃ events,
    s.recordInvalidConfigRejections now source rejected = { s with systemEvents := events } := by
  unfold recordInvalidConfigRejections
  split
  · exact ⟨_, rfl⟩
  · exact ⟨_, rfl⟩

/-- An event either is applied to its row or changes nothing. -/
theorem write_applyTestEvent (s : Store F) (now : Time) (event : TestEventInput F)
    (cadence : Cadence) (draw : ℕ) :
    s.write (.applyTestEvent now event cadence draw) =
      if s.accepts event then
        (s.recordTestEvent now event).updateNodes (fun row => row.id = event.proxyId)
          (fun row => row.applyEvent (s.scored now event) event cadence now draw)
      else s := by
  cases hf : s.findNode event.proxyId with
  | none => simp [write, applyTestEvent, accepts, hf, Except.map]
  | some row =>
    cases ha : s.alreadyApplied event with
    | true => simp [write, applyTestEvent, accepts, hf, ha, Except.map]
    | false => simp [write, applyTestEvent, accepts, scored, hf, ha, Except.map]

end Store

/-- Every row after a write was inserted by it or is an earlier row after one step. -/
theorem row_of_write {s : Store F} (hk : s.WellKeyed) {w : Write F} {row' : Node F}
    (h : row' ∈ (s.write w).nodes) :
    Inserts s w row' ∨ ∃ row ∈ s.nodes, RowStep s w row row' := by
  have unchanged : ¬ w.Selects s row' → row' ∈ s.nodes →
      Inserts s w row' ∨ ∃ row ∈ s.nodes, RowStep s w row row' :=
    fun hn hr => .inr ⟨row', hr, .kept row' hn⟩
  cases w with
  | ingestOne now proxy newId generation =>
    simp only [Store.write, Store.ingestOne] at h
    cases hf : s.nodes.find? (fun row => decide (row.configHash = proxy.configHash)) with
    | some found =>
      have hfound : found ∈ s.nodes := List.mem_of_find?_eq_some hf
      have hash : found.configHash = proxy.configHash := by simpa using List.find?_some hf
      simp only [hf, Store.commit_ok, Store.insertMember_nodes] at h
      obtain ⟨row, hr, ⟨hg, rfl⟩ | ⟨hg, rfl⟩⟩ := Store.mem_updateNodes.mp h
      · have hrow : row = found := RowUpdates.eq_of_key_eq hk.ids hr hfound (by simpa using hg)
        exact .inr ⟨row, hr, .reingested row (hrow ▸ hash)⟩
      · refine unchanged (fun hs => ?_) hr
        have hrow : row' = found :=
          RowUpdates.eq_of_key_eq hk.hashes hr hfound (Eq.trans hs hash.symm)
        simp [hrow] at hg
    | none =>
      have hash : ∀ row ∈ s.nodes, row.configHash ≠ proxy.configHash := by
        simpa using List.find?_eq_none.mp hf
      simp only [hf] at h
      split at h
      · exact unchanged (hash row' h) h
      next hid =>
        simp only [Store.commit_ok, Store.insertMember_nodes, List.mem_append,
          List.mem_singleton] at h
        obtain hr | rfl := h
        · exact unchanged (hash row' hr) hr
        · exact .inl (.ingested (by simpa using hid) hash)
  | claimRow now leaseUntil id =>
    obtain ⟨row, hr, ⟨hg, rfl⟩ | ⟨hg, rfl⟩⟩ := Store.mem_updateNodes.mp h
    · simp only [Bool.and_eq_true, decide_eq_true_eq] at hg
      exact .inr ⟨row, hr, .claimed row hg.1 hg.2⟩
    · exact unchanged (by simpa [Write.Selects] using hg) hr
  | applyTestEvent now event cadence draw =>
    rw [Store.write_applyTestEvent] at h
    split at h
    · next hfresh =>
      obtain ⟨row, hr, ⟨hg, rfl⟩ | ⟨hg, rfl⟩⟩ := Store.mem_updateNodes.mp h
      · exact .inr ⟨row, hr, .applied row (by simpa using hg) hfresh⟩
      · exact unchanged (fun hs => by simp [hs.1] at hg) hr
    · next hstale => exact unchanged (fun hs => hstale hs.2) h
  | releaseTestLease id =>
    obtain ⟨row, hr, ⟨hg, rfl⟩ | ⟨hg, rfl⟩⟩ := Store.mem_updateNodes.mp h
    · simp only [Bool.and_eq_true, decide_eq_true_eq] at hg
      exact .inr ⟨row, hr, .released row hg.1 hg.2⟩
    · exact unchanged (by simpa [Write.Selects] using hg) hr
  | markWaitingForPort now id retryAfter =>
    obtain ⟨row, hr, ⟨hg, rfl⟩ | ⟨hg, rfl⟩⟩ := Store.mem_updateNodes.mp h
    · simp only [Bool.and_eq_true, decide_eq_true_eq] at hg
      exact .inr ⟨row, hr, .waiting row hg.1 hg.2⟩
    · exact unchanged (by simpa [Write.Selects] using hg) hr
  | reconcile now generation minimum =>
    obtain ⟨mid, hm, hout⟩ := Store.mem_updateNodes.mp h
    obtain ⟨row, hr, ⟨hg, rfl⟩ | ⟨hg, rfl⟩⟩ := Store.mem_updateNodes.mp hm
    · obtain ⟨ho, rfl⟩ | ⟨ho, rfl⟩ := hout
      · exact .inr ⟨row, hr, .missedRetired row hg ho⟩
      · exact .inr ⟨row, hr, .missed row hg ho⟩
    · obtain ⟨ho, rfl⟩ | ⟨ho, rfl⟩ := hout
      · exact .inr ⟨mid, hr, .retired mid hg ho⟩
      · exact unchanged (by simp [Write.Selects, hg, ho]) hr
  | copyCachedSourceGeneration sourceName generation =>
    cases hp : s.previousGeneration sourceName generation with
    | none =>
      simp only [Store.write, Store.copyCachedSourceGeneration, hp] at h
      exact unchanged (by simp [Write.Selects, hp]) h
    | some previous =>
      simp only [Store.write, Store.copyCachedSourceGeneration, hp] at h
      obtain ⟨row, hr, ⟨hg, rfl⟩ | ⟨hg, rfl⟩⟩ := Store.mem_updateNodes.mp h
      · rw [Store.foldl_insertMember_nodes] at hr
        refine .inr ⟨row, hr, .seenAgain row (by simp [hp]) ?_⟩
        simp only [Store.copyCachedSourceGeneration, hp]
        exact of_decide_eq_true hg
      · rw [Store.foldl_insertMember_nodes] at hr
        refine unchanged (fun hs => of_decide_eq_false hg ?_) hr
        have hm := hs.2
        simp only [Store.copyCachedSourceGeneration, hp] at hm
        exact hm
  | reviveDormant now =>
    obtain ⟨row, hr, ⟨hg, rfl⟩ | ⟨hg, rfl⟩⟩ := Store.mem_updateNodes.mp h
    · simp only [Bool.and_eq_true, decide_eq_true_eq] at hg
      exact .inr ⟨row, hr, .dormantRevived row hg.1 hg.2⟩
    · exact unchanged (by simpa [Write.Selects] using hg) hr
  | reviveNode now id =>
    simp only [Store.write, Store.reviveNode] at h
    split at h
    · obtain ⟨row, hr, ⟨hg, rfl⟩ | ⟨hg, rfl⟩⟩ := Store.mem_updateNodes.mp h
      · simp only [Bool.and_eq_true, decide_eq_true_eq] at hg
        exact .inr ⟨row, hr, .revived row hg.1 hg.2⟩
      · exact unchanged (by simpa [Write.Selects] using hg) hr
    · next hnone => exact unchanged (fun hs => hnone (by simpa using ⟨row', h, hs⟩)) h
  | scheduleManualTest now id =>
    simp only [Store.write, Store.scheduleManualTest] at h
    split at h
    · obtain ⟨row, hr, ⟨hg, rfl⟩ | ⟨hg, rfl⟩⟩ := Store.mem_updateNodes.mp h
      · simp only [Bool.and_eq_true, decide_eq_true_eq] at hg
        exact .inr ⟨row, hr, .scheduled row hg.1 hg.2⟩
      · exact unchanged (by simpa [Write.Selects] using hg) hr
    · next hnone => exact unchanged (fun hs => hnone (by simpa using ⟨row', h, hs.1⟩)) h
  | cleanupRetired now => exact unchanged id (List.mem_of_mem_filter h)
  | seedLegacyDownloadLeases now leaseHours =>
    simp only [Store.write, Store.seedLegacyDownloadLeases] at h
    split at h
    · next hs => exact unchanged (fun h => by simp [h.1] at hs) h
    · obtain ⟨row, hr, ⟨hg, rfl⟩ | ⟨hg, rfl⟩⟩ := Store.mem_updateNodes.mp h
      · exact .inr ⟨row, hr, .seeded row hg⟩
      · exact unchanged (fun hs => by simp [hs.2] at hg) hr
  | setMainPort id port =>
    obtain ⟨row, hr, ⟨-, rfl⟩ | ⟨-, rfl⟩⟩ := Store.mem_updateNodes.mp h
    · exact .inr ⟨row, hr, .port row (some port) not_false⟩
    · exact unchanged not_false hr
  | clearMainPort id =>
    obtain ⟨row, hr, ⟨-, rfl⟩ | ⟨-, rfl⟩⟩ := Store.mem_updateNodes.mp h
    · exact .inr ⟨row, hr, .port row none not_false⟩
    · exact unchanged not_false hr
  | clearStaleRuntimePorts =>
    obtain ⟨row, hr, ⟨-, rfl⟩ | ⟨-, rfl⟩⟩ := Store.mem_updateNodes.mp h
    · exact .inr ⟨row, hr, .port row none not_false⟩
    · exact unchanged not_false hr
  | claimMetadataRefresh now id cacheTtl lease =>
    obtain ⟨row, hr, ⟨-, rfl⟩ | ⟨-, rfl⟩⟩ := Store.mem_updateNodes.mp h
    · exact .inr ⟨row, hr, .metadata row row.exitInfoFetchedAt (some (now + lease)) not_false⟩
    · exact unchanged not_false hr
  | recordExitMetadata now id =>
    obtain ⟨row, hr, ⟨-, rfl⟩ | ⟨-, rfl⟩⟩ := Store.mem_updateNodes.mp h
    · exact .inr ⟨row, hr, .metadata row (some now) none not_false⟩
    · exact unchanged not_false hr
  | releaseMetadataLease id =>
    obtain ⟨row, hr, ⟨-, rfl⟩ | ⟨-, rfl⟩⟩ := Store.mem_updateNodes.mp h
    · exact .inr ⟨row, hr, .metadata row row.exitInfoFetchedAt none not_false⟩
    · exact unchanged not_false hr
  | recordSourceSuccess now name url etag lastModified =>
    exact unchanged not_false (by simpa [Store.write] using h)
  | recordSourceFailure name url => exact unchanged not_false (by simpa [Store.write] using h)
  | beginRefresh | recordFinishedRun | recordSystemEvent | setQuotaDebt =>
    exact unchanged not_false h

namespace RowStep

variable {s : Store F} {w : Write F} {row row' : Node F}

theorem id_eq (h : RowStep s w row row') : row'.id = row.id := by
  cases h <;> rfl

theorem configHash_eq (h : RowStep s w row row') : row'.configHash = row.configHash := by
  cases h <;> rfl

end RowStep

omit [F64 F] in
theorem Store.WellKeyed.of_nodes_eq {s t : Store F} (hk : s.WellKeyed) (h : t.nodes = s.nodes) :
    t.WellKeyed := ⟨h ▸ hk.ids, h ▸ hk.hashes⟩

/-- Keys stay distinct: no update rewrites one and an insertion takes a new one. -/
theorem Store.WellKeyed.write {s : Store F} (hk : s.WellKeyed) (w : Write F) :
    (s.write w).WellKeyed := by
  cases w with
  | ingestOne now proxy newId generation =>
    simp only [Store.write, Store.ingestOne]
    split
    · refine Store.WellKeyed.of_nodes_eq ?_ (Store.insertMember_nodes _ _)
      exact hk.updateNodes (fun _ => rfl) (fun _ => rfl)
    · next hf =>
      have hash := List.find?_eq_none.mp hf
      split
      · exact hk
      next hid =>
        constructor
        · rw [Store.commit_ok, Store.insertMember_nodes, List.map_append, List.nodup_append]
          refine ⟨hk.ids, by simp, ?_⟩
          simpa [Node.ingested] using hid
        · rw [Store.commit_ok, Store.insertMember_nodes, List.map_append, List.nodup_append]
          refine ⟨hk.hashes, by simp, ?_⟩
          simpa [Node.ingested] using hash
  | applyTestEvent now event cadence draw =>
    rw [Store.write_applyTestEvent]
    split
    · have hr : (s.recordTestEvent now event).WellKeyed := hk.of_nodes_eq rfl
      exact hr.updateNodes (fun _ => rfl) (fun _ => rfl)
    · exact hk
  | reconcile now generation minimum =>
    have hm : (s.updateNodes (fun row => row.missedBy generation) Node.missed).WellKeyed :=
      hk.updateNodes (fun _ => rfl) (fun _ => rfl)
    exact hm.updateNodes (fun _ => rfl) (fun _ => rfl)
  | copyCachedSourceGeneration sourceName generation =>
    simp only [Store.write, Store.copyCachedSourceGeneration]
    split
    · exact hk
    · next previous _ =>
      have hc := hk.of_nodes_eq (Store.foldl_insertMember_nodes
        (fun hash => ⟨generation, sourceName, hash⟩) (s.memberHashes sourceName previous) s)
      exact hc.updateNodes (fun _ => rfl) (fun _ => rfl)
  | reviveNode now id =>
    simp only [Store.write, Store.reviveNode]
    split
    · exact hk.updateNodes (fun _ => rfl) (fun _ => rfl)
    · exact hk
  | scheduleManualTest now id =>
    simp only [Store.write, Store.scheduleManualTest]
    split
    · exact hk.updateNodes (fun _ => rfl) (fun _ => rfl)
    · exact hk
  | seedLegacyDownloadLeases now leaseHours =>
    simp only [Store.write, Store.seedLegacyDownloadLeases]
    split
    · exact hk
    · have hs : (s.updateNodes Node.legacySeedable fun row => { row with
          publicationLeaseUntil := some (now + hours (max leaseHours 1)) }).WellKeyed :=
        hk.updateNodes (fun _ => rfl) (fun _ => rfl)
      exact ⟨hs.ids, hs.hashes⟩
  | cleanupRetired now =>
    exact ⟨hk.ids.sublist (List.filter_sublist.map _),
      hk.hashes.sublist (List.filter_sublist.map _)⟩
  | recordSourceSuccess now name url etag lastModified =>
    exact hk.of_nodes_eq (Store.recordSourceSuccess_nodes s now name url etag lastModified)
  | recordSourceFailure name url =>
    exact hk.of_nodes_eq (Store.recordSourceFailure_nodes s name url)
  | beginRefresh | recordFinishedRun | recordSystemEvent | setQuotaDebt =>
    exact ⟨hk.ids, hk.hashes⟩
  | claimRow | releaseTestLease | markWaitingForPort | reviveDormant | setMainPort | clearMainPort
  | clearStaleRuntimePorts | claimMetadataRefresh | recordExitMetadata | releaseMetadataLease =>
    exact hk.updateNodes (fun _ => rfl) (fun _ => rfl)

theorem Store.WellKeyed.writes {s : Store F} (hk : s.WellKeyed) (ws : List (Write F)) :
    (s.writes ws).WellKeyed :=
  ObservedRuns.run_preserves (I := Store.WellKeyed) (fun _ w h => h.write w) hk ws

section RowInvariants

variable {γ : Type} {note : γ → Store F → Write F → γ} {J : Store F → γ → Prop}
  {P : γ → Node F → Prop}

/-- The invariant rule for rows. A law that relates each row to the notes of the past holds
after every run if insertions establish it and every step of a row preserves it, both on
the ground of a law `J` about the rest of the store. -/
theorem rows_invariant {A : Store F → Write F → Prop}
    (ground : ∀ s g w, A s w → s.WellKeyed → J s g → J (s.write w) (note g s w))
    (insert : ∀ s g w row, A s w → J s g → Inserts s w row → P (note g s w) row)
    (step : ∀ s g w row row', A s w → s.WellKeyed → J s g → row ∈ s.nodes → P g row →
      RowStep s w row row' → P (note g s w) row')
    {s : Store F} {g : γ} (hk : s.WellKeyed) (hJ : J s g) (h : ∀ row ∈ s.nodes, P g row)
    {ws : List (Write F)} (ha : ObservedRuns.Admitted Store.write A s ws) :
    ∀ row ∈ (s.writes ws).nodes, P (ObservedRuns.notes Store.write note g s ws) row := by
  refine (ObservedRuns.notes_invariant (A := A)
    (I := fun s g => s.WellKeyed ∧ J s g ∧ ∀ row ∈ s.nodes, P g row) ?_ ⟨hk, hJ, h⟩ ha).2.2
  rintro s g w hw ⟨hk, hJ, h⟩
  refine ⟨hk.write w, ground s g w hw hk hJ, fun row' hr' => ?_⟩
  obtain hi | ⟨row, hr, hs⟩ := row_of_write hk hr'
  · exact insert s g w row' hw hJ hi
  · exact step s g w row row' hw hk hJ hr (h row hr) hs

/-- The rule for runs of any writes from an empty database, where the law needs no ground. -/
theorem rows_preserved {g : γ} (insert : ∀ s g w row, Inserts s w row → P (note g s w) row)
    (step : ∀ s g w row row', s.WellKeyed → row ∈ s.nodes → P g row →
      RowStep s w row row' → P (note g s w) row') (ws : List (Write F)) :
    ∀ row ∈ (Store.empty.writes ws).nodes,
      P (ObservedRuns.notes Store.write note g Store.empty ws) row :=
  rows_invariant (J := fun _ _ => True) (A := fun _ _ => True) (fun _ _ _ _ _ _ => trivial)
    (fun s g w row _ _ => insert s g w row)
    (fun s g w row row' _ hk _ => step s g w row row' hk) Store.wellKeyed_empty trivial
    (by simp [Store.empty]) (ObservedRuns.admitted_of_forall (fun _ _ _ => trivial) _)

/-- The rule for a law of rows that needs no notes, for runs of writes of a kind `A`. -/
theorem rows_law {A : Write F → Prop} {P : Node F → Prop}
    (insert : ∀ s w row, A w → Inserts s w row → P row)
    (step : ∀ s w row row', A w → s.WellKeyed → row ∈ s.nodes → P row → RowStep s w row row' →
      P row')
    {ws : List (Write F)} (h : ∀ w ∈ ws, A w) : ∀ row ∈ (Store.empty.writes ws).nodes, P row := by
  intro row hr
  exact @rows_invariant F _ Unit (fun _ _ _ => ()) (fun _ _ => True) (fun _ => P) (fun _ => A)
    (fun _ _ _ _ _ _ => trivial) (fun s _ w row hw _ => insert s w row hw)
    (fun s _ w row row' hw hk _ => step s w row row' hw hk) _ () Store.wellKeyed_empty trivial
    (by simp [Store.empty]) ws (ObservedRuns.admitted_of_forall (fun w hw _ => h w hw) _) row hr

end RowInvariants

/-- The intervals of the default configuration. -/
def defaultCadence : Cadence where
  activeRelayInterval := 10 * 10 ^ 9
  activeDownloadInterval := 300 * 10 ^ 9
  activeMinResidence := 1800 * 10 ^ 9
  residence_bounds := by decide

/-- One proxy for the concrete runs. -/
def sampleProxy : ParsedProxy where
  source := "feed"
  rawConfig := "trojan://secret@host.example:443".toList
  protocol := "trojan"
  address := "host.example"
  port := 443
  remark := ""
  normalizedConfig := .object [
    ("address", .string "host.example"), ("params", .object []), ("password", .string ""),
    ("path", .string ""), ("port", .number (.posInt 443)), ("protocol", .string "trojan"),
    ("user", .string "secret")]
  configHash := "1894755e72756d0e7178756b6b0b05b5bef4a59be2e8e898017e53f31a598d4a"

/-- The event of one stage of one run on the sample node. -/
def sampleEvent (runId : String) (stage : TestStage) (failureClass : FailureClass) :
    TestEventInput ℚ where
  proxyId := "node"
  runId := runId
  stage := stage
  failureClass := failureClass

end ProxyFleet
