import ProxyFleet.FleetDatabase
import ProxyFleet.RetainedWindows

/-!
# Retention of the system events

The heartbeat deletes all but the newest system events, and the pages of the log are read
from what is left. Nothing else deletes one. However many deletions a run contains, a page
without a filter that is no larger than the retained window shows the newest of all events
that were ever recorded, and an event can be found until enough others are as new as it is.
-/
namespace ProxyFleet

open ObservedRuns NewestWindows RetainedWindows

variable {F : Type}

/-- An empty parameter is no filter. -/
def logFilter (component level : Option String) (event : SystemEvent) : Bool :=
  ((component.filter (· ≠ "")).all fun component => decide (event.component = component)) &&
    (level.filter (· ≠ "")).all fun level => decide (event.level = level)

/-- A page of the log, the newest events first. -/
def Store.logs (s : Store F) (limit : ℕ) (component level : Option String) : List SystemEvent :=
  ((s.systemEvents.filter (logFilter component level)).mergeSort
    fun a b => decide (b.createdAt ≤ a.createdAt)).take (max 1 (min limit 1000))

/-- What the operation adds to the log. -/
def Operation.recorded : Operation F → List SystemEvent
  | .write (.recordSystemEvent event) => [event]
  | _ => []

section Pages

/-- The order of the query, on whatever carries an event. -/
theorem pairwise_byTime {α : Type} (event : α → SystemEvent) (entries : List α) :
    (entries.mergeSort fun a b => decide ((event b).createdAt ≤ (event a).createdAt)).Pairwise
      fun a b => (event b).createdAt ≤ (event a).createdAt := by
  have htrans : ∀ a b c : α, decide ((event b).createdAt ≤ (event a).createdAt) = true →
      decide ((event c).createdAt ≤ (event b).createdAt) = true →
        decide ((event c).createdAt ≤ (event a).createdAt) = true := by
    intro a b c hab hbc
    exact decide_eq_true (le_trans (of_decide_eq_true hbc) (of_decide_eq_true hab))
  have htotal : ∀ a b : α, (decide ((event b).createdAt ≤ (event a).createdAt) ||
      decide ((event a).createdAt ≤ (event b).createdAt)) = true := by
    intro a b
    simpa using le_total (event b).createdAt (event a).createdAt
  exact (List.pairwise_mergeSort htrans htotal entries).imp of_decide_eq_true

/-- A page is the front of the events it is about in the order of the query. -/
theorem logs_newest (s : Store F) (limit : ℕ) (component level : Option String) :
    Newest (·.createdAt) (s.systemEvents.filter (logFilter component level))
      (max 1 (min limit 1000)) (s.logs limit component level) :=
  newest_take (pairwise_byTime id _) (List.mergeSort_perm _ _) _

theorem filter_logFilter_none (events : List SystemEvent) :
    events.filter (logFilter none none) = events :=
  List.filter_eq_self.mpr fun _ _ => rfl

/-- The newest events stay, in the order of the table. -/
theorem pruneSystemEvents_newest (s : Store F) (maxRows : ℕ) : ∃ chosen,
    Newest (·.createdAt) s.systemEvents (max maxRows 100) chosen ∧
      (s.pruneSystemEvents maxRows).systemEvents.Perm chosen := by
  have hnewest : Newest ((·.createdAt) ∘ Prod.fst) s.systemEvents.zipIdx (max maxRows 100) _ :=
    newest_take (pairwise_byTime Prod.fst s.systemEvents.zipIdx) (List.mergeSort_perm _ _) _
  obtain ⟨rest, hperm, -⟩ := hnewest.complete
  have hdistinct : (s.systemEvents.zipIdx.map Prod.snd).Nodup := by
    rw [List.zipIdx_map_snd]
    exact List.nodup_range'
  have hchosen := hnewest.map Prod.fst
  rw [List.zipIdx_map_fst] at hchosen
  exact ⟨_, hchosen, (perm_filter_names hperm hdistinct).map Prod.fst⟩

end Pages

section Runs

variable [F64 F] {db : FleetDatabase F} {all : List SystemEvent} {size : ℕ}

omit [F64 F] in
@[simp] theorem insertMember_systemEvents (s : Store F) (member : GenerationMember) :
    (s.insertMember member).systemEvents = s.systemEvents := by
  unfold Store.insertMember
  split <;> rfl

omit [F64 F] in
@[simp] theorem foldl_insertMember_systemEvents {α : Type} (toMember : α → GenerationMember)
    (items : List α) (s : Store F) :
    (items.foldl (fun t item => t.insertMember (toMember item)) s).systemEvents =
      s.systemEvents := by
  induction items generalizing s with
  | nil => rfl
  | cons item items ih => simp [ih]

/-- Of the writes one records a system event, and none deletes any. -/
theorem systemEvents_write (s : Store F) (w : Write F) :
    (s.write w).systemEvents = s.systemEvents ++ (Operation.write w).recorded := by
  cases w with
  | recordSystemEvent event => rfl
  | applyTestEvent now event cadence draw =>
    rw [Store.write_applyTestEvent]
    split <;> simp [Operation.recorded, Store.updateNodes, Store.recordTestEvent]
  | ingestOne now proxy newId generation =>
    simp only [Store.write, Store.ingestOne, Operation.recorded, List.append_nil]
    split
    · simp [Store.updateNodes]
    · split <;> simp
  | copyCachedSourceGeneration sourceName generation =>
    simp only [Store.write, Store.copyCachedSourceGeneration, Operation.recorded, List.append_nil]
    split
    · rfl
    · simp [Store.updateNodes]
  | reviveNode now id =>
    simp only [Store.write, Store.reviveNode, Operation.recorded, List.append_nil]
    split <;> rfl
  | scheduleManualTest now id =>
    simp only [Store.write, Store.scheduleManualTest, Operation.recorded, List.append_nil]
    split <;> rfl
  | seedLegacyDownloadLeases now leaseHours =>
    simp only [Store.write, Store.seedLegacyDownloadLeases, Operation.recorded, List.append_nil]
    split <;> rfl
  | recordSourceSuccess now name url etag lastModified =>
    simp only [Store.write, Store.recordSourceSuccess, Operation.recorded, List.append_nil]
    split <;> rfl
  | recordSourceFailure name url =>
    simp only [Store.write, Store.recordSourceFailure, Operation.recorded, List.append_nil]
    split <;> rfl
  | _ => exact (List.append_nil _).symm

/-- Every other operation only adds what it records. -/
theorem systemEvents_step (db : FleetDatabase F) (op : Operation F) :
    (∃ maxRows, op = .pruneSystemEvents maxRows) ∨
      (db.step op).store.systemEvents = db.store.systemEvents ++ op.recorded := by
  cases op with
  | pruneSystemEvents maxRows => exact .inl ⟨maxRows, rfl⟩
  | write w => exact .inr (systemEvents_write db.store w)
  | migrate | setServiceState | setSchedulerState | recordAssignment | applyFeedback =>
    exact .inr (List.append_nil _).symm

/-- No deletion of the run leaves fewer than `size` rows, if there are as many. -/
def Spares (size : ℕ) : Operation F → Prop
  | .pruneSystemEvents maxRows => size ≤ max maxRows 100
  | _ => True

theorem retained_step {op : Operation F} (hspares : Spares size op)
    (h : Retained (·.createdAt) all size db.store.systemEvents) :
    Retained (·.createdAt) (all ++ op.recorded) size (db.step op).store.systemEvents := by
  obtain ⟨maxRows, rfl⟩ | hadds := systemEvents_step db op
  · obtain ⟨chosen, hnewest, hperm⟩ := pruneSystemEvents_newest db.store maxRows
    show Retained _ (all ++ []) size _
    rw [List.append_nil]
    exact (h.prune hspares hnewest).perm hperm
  · rw [hadds]
    exact h.append op.recorded

theorem retained_run {ops : List (Operation F)} (hspares : ∀ op ∈ ops, Spares size op)
    (h : Retained (·.createdAt) all size db.store.systemEvents) :
    Retained (·.createdAt) (all ++ ops.flatMap Operation.recorded) size
      (run FleetDatabase.step db ops).store.systemEvents := by
  induction ops generalizing db all with
  | nil => simpa using h
  | cons op ops ih =>
    rw [run_cons, List.flatMap_cons, ← List.append_assoc]
    exact ih (fun op hop => hspares op (List.mem_cons_of_mem _ hop))
      (retained_step (hspares op (List.mem_cons_self ..)) h)

theorem systemEvents_length_step (db : FleetDatabase F) (op : Operation F) :
    (db.step op).store.systemEvents.length ≤
      db.store.systemEvents.length + op.recorded.length := by
  obtain ⟨maxRows, rfl⟩ | hadds := systemEvents_step db op
  · obtain ⟨chosen, hnewest, hperm⟩ := pruneSystemEvents_newest db.store maxRows
    have hfilled := hnewest.filled
    have hlength := hperm.length_eq
    show (db.store.pruneSystemEvents maxRows).systemEvents.length ≤ _
    omega
  · rw [hadds, List.length_append]

theorem systemEvents_length_run (db : FleetDatabase F) (ops : List (Operation F)) :
    (run FleetDatabase.step db ops).store.systemEvents.length ≤
      db.store.systemEvents.length + (ops.flatMap Operation.recorded).length := by
  induction ops generalizing db with
  | nil => simp
  | cons op ops ih =>
    have hrest := ih (db.step op)
    have hone := systemEvents_length_step db op
    rw [run_cons, List.flatMap_cons, List.length_append]
    omega

/-- The log that every operation wrote to, as if nothing was ever deleted. -/
def FleetDatabase.everRecorded (db : FleetDatabase F) (ops : List (Operation F)) :
    List SystemEvent :=
  db.store.systemEvents ++ ops.flatMap Operation.recorded

/-- After a deletion at most the retained rows are left, and what is recorded later. -/
theorem systemEvents_bounded (db : FleetDatabase F) (before after : List (Operation F))
    (maxRows : ℕ) :
    (run FleetDatabase.step db
        (before ++ .pruneSystemEvents maxRows :: after)).store.systemEvents.length ≤
      max maxRows 100 + (after.flatMap Operation.recorded).length := by
  rw [run_append, run_cons]
  have hafter := systemEvents_length_run
    ((run FleetDatabase.step db before).step (.pruneSystemEvents maxRows)) after
  obtain ⟨chosen, hnewest, hperm⟩ :=
    pruneSystemEvents_newest (run FleetDatabase.step db before).store maxRows
  have hfilled := hnewest.filled
  have hlength := hperm.length_eq
  have hpruned : ((run FleetDatabase.step db before).step
      (.pruneSystemEvents maxRows)).store.systemEvents.length = chosen.length := hlength
  omega

/-- Whatever the run deletes in between, a page that asks for no more rows than every deletion
spares shows the newest events ever recorded, an event with at most that many others as new
as itself can be found, a filtered page shows the newest matches of what is left, and what is
left is bounded by the last deletion. -/
theorem deletions_unseen (db : FleetDatabase F) {ops : List (Operation F)} {size : ℕ}
    (hspares : ∀ op ∈ ops, Spares size op) (limit : ℕ) :
    (max 1 (min limit 1000) ≤ size →
      Newest (·.createdAt) (db.everRecorded ops) (max 1 (min limit 1000))
        ((run FleetDatabase.step db ops).store.logs limit none none)) ∧
    (∀ event ∈ db.everRecorded ops,
      ((db.everRecorded ops).countP fun e => decide (event.createdAt ≤ e.createdAt)) ≤ size →
        event ∈ (run FleetDatabase.step db ops).store.systemEvents) ∧
    (∀ component level, Newest (·.createdAt)
      ((run FleetDatabase.step db ops).store.systemEvents.filter (logFilter component level))
        (max 1 (min limit 1000))
        ((run FleetDatabase.step db ops).store.logs limit component level)) ∧
    ∀ before maxRows after, ops = before ++ .pruneSystemEvents maxRows :: after →
      (run FleetDatabase.step db ops).store.systemEvents.length ≤
        max maxRows 100 + (after.flatMap Operation.recorded).length := by
  have hretained : Retained (·.createdAt) (db.everRecorded ops) size
      (run FleetDatabase.step db ops).store.systemEvents :=
    retained_run hspares (retained_self _ _ _)
  refine ⟨?_, ?_, ?_, ?_⟩
  · intro hlimit
    have hpage := logs_newest (run FleetDatabase.step db ops).store limit none none
    rw [filter_logFilter_none] at hpage
    exact hretained.newest hlimit hpage
  · intro event hevent hfew
    exact hretained.mem hevent hfew
  · exact logs_newest _ limit
  · rintro before maxRows after rfl
    exact systemEvents_bounded db before after maxRows

end Runs

section Examples

def logLine (createdAt : Time) (level : String) : SystemEvent where
  createdAt := createdAt
  level := level
  component := "scheduler"
  event := "ADAPTIVE_CONCURRENCY"
  message := ""
  details := .null

def loggedRun : List (Operation ℚ) :=
  (List.range 150).map fun i => .write (.recordSystemEvent (logLine i "INFO"))

/-- A deletion with a setting below the minimum, which leaves 100 of 150 events. -/
def prunedRun : List (Operation ℚ) :=
  loggedRun ++ [.pruneSystemEvents 1, .write (.recordSystemEvent (logLine 1 "WARN"))]

theorem deletions_unseen_pruned :
    (FleetDatabase.everRecorded {} prunedRun).length = 151 ∧
      Newest (·.createdAt) (FleetDatabase.everRecorded {} prunedRun) 50
        ((run FleetDatabase.step {} prunedRun).store.logs 50 none none) ∧
      (run FleetDatabase.step {} prunedRun).store.systemEvents.length ≤ 101 := by
  have hspares : ∀ op ∈ prunedRun, Spares 100 op := by
    intro op hop
    obtain hop | hop := List.mem_append.mp hop
    · obtain ⟨i, -, rfl⟩ := List.mem_map.mp hop
      trivial
    · rcases List.mem_pair.mp hop with rfl | rfl
      · exact Nat.le_max_right 1 100
      · trivial
  obtain ⟨hpage, -, -, hbound⟩ := deletions_unseen {} hspares 50
  refine ⟨?_, hpage (by decide), hbound loggedRun 1 [_] rfl⟩
  simp [FleetDatabase.everRecorded, prunedRun, loggedRun, Operation.recorded, List.flatMap_map]

end Examples

end ProxyFleet
