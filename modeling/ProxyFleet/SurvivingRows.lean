import ProxyFleet.StoreRuns

/-!
# Rows that survive

Only the cleanup of expired tombstones removes a row. Every other row of a store is found again
after a write, one step further, so a law of one row can be followed through a run.
-/
namespace ProxyFleet

variable {F : Type} [F64 F]

/-- The write does not remove the row. -/
def Write.Spares (row : Node F) : Write F → Prop
  | .cleanupRetired now => row.expiredTombstone now = false
  | _ => True

omit [F64 F] in
theorem Store.mem_ids_updateNodes {s : Store F} {guard : Node F → Bool} {f : Node F → Node F}
    (h : ∀ row, (f row).id = row.id) {id : String} (hid : id ∈ s.nodes.map (·.id)) :
    id ∈ (s.updateNodes guard f).nodes.map (·.id) := by
  rw [Store.updateNodes, RowUpdates.map_updateWhere h]
  exact hid

/-- The key of a row that is spared is a key after the write. -/
theorem mem_ids_of_spares {s : Store F} {w : Write F} {row : Node F} (hr : row ∈ s.nodes)
    (h : w.Spares row) : row.id ∈ (s.write w).nodes.map (·.id) := by
  have hid : row.id ∈ s.nodes.map (·.id) := List.mem_map_of_mem hr
  cases w with
  | ingestOne now proxy newId generation =>
    simp only [Store.write, Store.ingestOne]
    split
    · rw [Store.commit_ok, Store.insertMember_nodes]
      exact Store.mem_ids_updateNodes (fun _ => by rfl) hid
    · split
      · exact hid
      · rw [Store.commit_ok, Store.insertMember_nodes, List.map_append]
        exact List.mem_append_left _ hid
  | applyTestEvent now event cadence draw =>
    rw [Store.write_applyTestEvent]
    split
    · exact Store.mem_ids_updateNodes (fun _ => by rfl) hid
    · exact hid
  | reconcile now generation minimum =>
    exact Store.mem_ids_updateNodes (fun _ => by rfl)
      (Store.mem_ids_updateNodes (fun _ => by rfl) hid)
  | copyCachedSourceGeneration sourceName generation =>
    simp only [Store.write, Store.copyCachedSourceGeneration]
    split
    · exact hid
    · refine Store.mem_ids_updateNodes (fun _ => by rfl) ?_
      rw [Store.foldl_insertMember_nodes]
      exact hid
  | reviveNode now id =>
    simp only [Store.write, Store.reviveNode]
    split
    · exact Store.mem_ids_updateNodes (fun _ => by rfl) hid
    · exact hid
  | scheduleManualTest now id =>
    simp only [Store.write, Store.scheduleManualTest]
    split
    · exact Store.mem_ids_updateNodes (fun _ => by rfl) hid
    · exact hid
  | seedLegacyDownloadLeases now leaseHours =>
    simp only [Store.write, Store.seedLegacyDownloadLeases]
    split
    · exact hid
    · exact Store.mem_ids_updateNodes (s := s) (fun _ => by rfl) hid
  | cleanupRetired now =>
    have hkept : row ∈ s.nodes.filter fun row => !row.expiredTombstone now :=
      List.mem_filter.mpr ⟨hr, by rw [h]; rfl⟩
    exact List.mem_map_of_mem hkept
  | recordSourceSuccess now name url etag lastModified =>
    rw [Store.write, Store.recordSourceSuccess_nodes]
    exact hid
  | recordSourceFailure name url =>
    rw [Store.write, Store.recordSourceFailure_nodes]
    exact hid
  | beginRefresh | recordFinishedRun | recordSystemEvent | setQuotaDebt => exact hid
  | claimRow | releaseTestLease | markWaitingForPort | reviveDormant | setMainPort | clearMainPort
  | clearStaleRuntimePorts | claimMetadataRefresh | recordExitMetadata | releaseMetadataLease =>
    exact Store.mem_ids_updateNodes (fun _ => by rfl) hid

/-- A row that is spared is found again after one step. -/
theorem step_of_mem {s : Store F} (hk : s.WellKeyed) {w : Write F} {row : Node F}
    (hr : row ∈ s.nodes) (h : w.Spares row) :
    ∃ row' ∈ (s.write w).nodes, RowStep s w row row' := by
  obtain ⟨row', hr', hid⟩ := List.mem_map.mp (mem_ids_of_spares hr h)
  obtain hi | ⟨other, hother, hstep⟩ := row_of_write hk hr'
  · cases hi with
    | ingested hnew => exact absurd hid.symm (hnew row hr)
  · obtain rfl : other = row :=
      RowUpdates.eq_of_key_eq hk.ids hother hr (hstep.id_eq.symm.trans hid)
    exact ⟨row', hr', hstep⟩

/-- The rule for one row. A law of the row that spares it and that every step of the kind `A`
preserves is kept through runs of writes of that kind, and the row with it. -/
theorem row_survives {A : Write F → Prop} {P : Node F → Prop}
    (spares : ∀ w row, A w → P row → w.Spares row)
    (step : ∀ s w row row', A w → P row → RowStep s w row row' → P row')
    {s : Store F} (hk : s.WellKeyed) {row : Node F} (hr : row ∈ s.nodes) (h : P row)
    {ws : List (Write F)} (hws : ∀ w ∈ ws, A w) :
    ∃ row' ∈ (s.writes ws).nodes,
      row'.id = row.id ∧ row'.configHash = row.configHash ∧ P row' := by
  induction ws generalizing s row with
  | nil => exact ⟨row, hr, rfl, rfl, h⟩
  | cons w ws ih =>
    have hw : A w := hws w List.mem_cons_self
    obtain ⟨row₁, hr₁, hstep⟩ := step_of_mem hk hr (spares w row hw h)
    obtain ⟨row', hr', hid, hhash, hP⟩ := ih (hk.write w) hr₁ (step s w row row₁ hw h hstep)
      fun w' hw' => hws w' (List.mem_cons_of_mem w hw')
    exact ⟨row', hr', hid.trans hstep.id_eq, hhash.trans hstep.configHash_eq, hP⟩

end ProxyFleet
