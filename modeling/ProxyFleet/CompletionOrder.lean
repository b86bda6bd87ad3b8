import ProxyFleet.LastWrites
import ProxyFleet.PublishedFeed
import ProxyFleet.UpstreamRefresh

/-!
# Completion orders of the sources

The answers of a refresh arrive in any order, and what their bodies contain is ingested in
the order of their arrival. A row keeps the last text of its identity, so two orders publish
the same feed exactly if they end with the same text for every row that is published.
-/
namespace ProxyFleet

variable {F : Type}

/-- The columns of a row that a snapshot reads. -/
structure FeedColumns (F : Type) where
  configHash : String
  rawConfig : Text
  structurallyValid : Bool
  publicationLeaseUntil : Option Time
  lifecycleState : LifecycleState
  healthScore : F

def Node.feedColumns (row : Node F) : FeedColumns F where
  configHash := row.configHash
  rawConfig := row.rawConfig
  structurallyValid := row.structurallyValid
  publicationLeaseUntil := row.publicationLeaseUntil
  lifecycleState := row.lifecycleState
  healthScore := row.healthScore

namespace FeedColumns

variable (c : FeedColumns F)

/-- The lease outlasts the time. -/
def leased (time : Time) : Bool := c.publicationLeaseUntil.any fun lease => decide (time < lease)

def publishable (time : Time) : Bool :=
  c.structurallyValid && c.leased time && c.lifecycleState ≠ .invalid &&
    c.lifecycleState ≠ .retired

/-- The columns after the writes of a batch. -/
def ingested (batch : List ParsedProxy) : FeedColumns F :=
  { c with
    rawConfig := ((LastWrites.last (·.configHash) c.configHash batch).map
      (·.rawConfig)).getD c.rawConfig
    lifecycleState :=
      if c.configHash ∈ batch.map (·.configHash) then
        if c.lifecycleState = .retired then .candidate else c.lifecycleState
      else c.lifecycleState }

variable [F64 F]

def PublishedBefore (a b : FeedColumns F) : Prop :=
  F64.lt b.healthScore a.healthScore = true ∨
    F64.lt a.healthScore b.healthScore = false ∧ a.configHash ≤ b.configHash

instance : DecidableRel (PublishedBefore (F := F)) :=
  fun _ _ => inferInstanceAs (Decidable (_ ∨ _ ∧ _))

/-- The texts of the publishable rows of a table, in the order of their publication. -/
def feed (table : List (FeedColumns F)) (time : Time) : List Text :=
  ((table.filter (·.publishable time)).insertionSort PublishedBefore).map (·.rawConfig)

end FeedColumns

section Snapshots

variable [F64 F]

omit [F64 F] in
theorem Node.publishable_feedColumns (row : Node F) (time : Time) :
    row.feedColumns.publishable time = row.publishable time := by
  unfold FeedColumns.publishable Node.publishable Node.leaseExpired FeedColumns.leased
    Node.feedColumns
  cases row.publicationLeaseUntil with
  | none => simp
  | some lease =>
    by_cases h : lease ≤ time
    · simp [h]
    · simp [h, not_le.mp h]

/-- A snapshot reads the feed columns of its rows and nothing else. -/
theorem Store.rawConfigs_publicationSnapshot (s : Store F) (time : Time) :
    (s.publicationSnapshot time).rawConfigs =
      FeedColumns.feed (s.nodes.map Node.feedColumns) time := by
  have hfilter : (s.nodes.map Node.feedColumns).filter (·.publishable time) =
      (s.nodes.filter fun row => row.publishable time).map Node.feedColumns := by
    rw [List.filter_map]
    congr 2
    funext row
    exact row.publishable_feedColumns time
  rw [FeedColumns.feed, hfilter, Store.publicationSnapshot, Store.publishedNodes]
  rw [← List.map_insertionSort Node.PublishedBefore FeedColumns.PublishedBefore
    Node.feedColumns _ fun _ _ _ _ => Iff.rfl, List.map_map]
  rfl

namespace FeedColumns

variable {table : List (FeedColumns F)} {time : Time}

/-- Rows that are not published do not show. -/
theorem feed_append {added : List (FeedColumns F)}
    (hidden : ∀ c ∈ added, c.publishable time = false) :
    feed (table ++ added) time = feed table time := by
  have hnone : added.filter (·.publishable time) = [] :=
    List.filter_eq_nil_iff.mpr fun c hc => by simp [hidden c hc]
  rw [feed, List.filter_append, hnone, List.append_nil, feed]

/-- Only a change that a reader of the feed sees changes the feed. -/
theorem feed_congr {ρ : Type*} {rows : List ρ} {f g : ρ → FeedColumns F}
    (unseen : ∀ row ∈ rows, f row = g row ∨
      (f row).publishable time = false ∧ (g row).publishable time = false) :
    feed (rows.map f) time = feed (rows.map g) time := by
  have hfilter : (rows.map f).filter (·.publishable time) =
      (rows.map g).filter (·.publishable time) := by
    induction rows with
    | nil => rfl
    | cons row rows ih =>
      have hrest := ih fun other ho => unseen other (List.mem_cons_of_mem _ ho)
      rcases unseen row List.mem_cons_self with hsame | ⟨hf, hg⟩
      · rw [List.map_cons, List.map_cons, List.filter_cons, List.filter_cons, hrest, hsame]
      · simp [hf, hg, hrest]
  rw [feed, hfilter, feed]

/-- A row that may be published after a batch. -/
def Publishing (c : FeedColumns F) (time : Time) : Prop :=
  c.structurallyValid = true ∧ c.leased time = true ∧ c.lifecycleState ≠ .invalid

omit [F64 F] in
/-- A row is published after a batch if it may be, and is not retired without being named. -/
theorem publishable_ingested (c : FeedColumns F) (batch : List ParsedProxy) :
    (c.ingested batch).publishable time = true ↔ c.Publishing time ∧
      (c.configHash ∈ batch.map (·.configHash) ∨ c.lifecycleState ≠ .retired) := by
  have hleased : (c.ingested batch).leased time = c.leased time := rfl
  have hvalid : (c.ingested batch).structurallyValid = c.structurallyValid := rfl
  have hstate : (c.ingested batch).lifecycleState =
      if c.configHash ∈ batch.map (·.configHash) then
        if c.lifecycleState = .retired then .candidate else c.lifecycleState
      else c.lifecycleState := rfl
  rw [publishable, hleased, hvalid, hstate, Publishing]
  by_cases hnamed : c.configHash ∈ batch.map (·.configHash)
  · rw [if_pos hnamed]
    cases c.lifecycleState <;> simp [hnamed]
  · rw [if_neg hnamed]
    simp [hnamed, and_assoc]

/-- The feed after a batch, row by row of the table before it. -/
theorem feed_ingested (batch : List ParsedProxy) :
    feed (table.map (·.ingested batch)) time =
      ((table.filter fun c => (c.ingested batch).publishable time).insertionSort
        PublishedBefore).map fun c => (c.ingested batch).rawConfig := by
  rw [feed, List.filter_map, ← List.map_insertionSort PublishedBefore PublishedBefore
    (fun c : FeedColumns F => c.ingested batch) _ fun _ _ _ _ => Iff.rfl, List.map_map]
  rfl

/-- Two batches that name the same identities publish the same feed exactly if they agree on
the last text of every row that may be published. -/
theorem feed_ingested_iff {batch other : List ParsedProxy} (h : batch.Perm other) :
    feed (table.map (·.ingested batch)) time = feed (table.map (·.ingested other)) time ↔
      ∀ c ∈ table, c.Publishing time →
        (LastWrites.last (·.configHash) c.configHash batch).map (·.rawConfig) =
          (LastWrites.last (·.configHash) c.configHash other).map (·.rawConfig) := by
  have hnamed : ∀ c : FeedColumns F, c.configHash ∈ batch.map (·.configHash) ↔
      c.configHash ∈ other.map (·.configHash) := fun c => (h.map _).mem_iff
  have hfilter : (fun c : FeedColumns F => (c.ingested batch).publishable time) =
      fun c => (c.ingested other).publishable time := by
    funext c
    rw [Bool.eq_iff_iff, publishable_ingested, publishable_ingested, hnamed]
  rw [feed_ingested, feed_ingested, hfilter, List.map_inj_left]
  simp only [List.mem_insertionSort, List.mem_filter, publishable_ingested]
  -- The texts of a row agree if and only if the last ones do, for both or none are there.
  have htext : ∀ c : FeedColumns F, (c.ingested batch).rawConfig = (c.ingested other).rawConfig ↔
      (LastWrites.last (·.configHash) c.configHash batch).map (·.rawConfig) =
        (LastWrites.last (·.configHash) c.configHash other).map (·.rawConfig) := by
    intro c
    have hnone := LastWrites.last_eq_none_of_perm (·.configHash) c.configHash h
    unfold ingested
    dsimp only
    cases hb : LastWrites.last (·.configHash) c.configHash batch with
    | none => simp [hnone.mp hb]
    | some p =>
      cases ho : LastWrites.last (·.configHash) c.configHash other with
      | none =>
        rw [hnone.mpr ho] at hb
        cases hb
      | some q => simp
  simp only [htext]
  constructor
  · intro hall c hc hp
    by_cases hretired : c.configHash ∈ other.map (·.configHash) ∨ c.lifecycleState ≠ .retired
    · exact hall c ⟨hc, hp, hretired⟩
    · rw [not_or] at hretired
      rw [(LastWrites.last_eq_none_iff _ _ other).mpr hretired.1,
        (LastWrites.last_eq_none_iff _ _ batch).mpr fun hm => hretired.1 ((hnamed c).mp hm)]
  · exact fun hall c hc => hall c hc.1 hc.2.1

end FeedColumns

end Snapshots

section Batches

variable [F64 F] {s : Store F}

/-- One ingest updates the row of its identity, or inserts one without a lease. -/
theorem Store.nodes_ingestOne (keyed : s.WellKeyed) {now : Time} {proxy : ParsedProxy}
    {newId : String} {generation : ℤ} {t : Store F}
    (ok : s.ingestOne now proxy newId generation = .ok t) :
    (t.nodes = s.nodes.map fun row =>
      if proxy.configHash = row.configHash then row.reingested now proxy generation else row) ∨
    ((∀ row ∈ s.nodes, proxy.configHash ≠ row.configHash) ∧
      t.nodes = s.nodes ++ [Node.ingested now proxy newId generation]) := by
  unfold Store.ingestOne at ok
  dsimp only at ok
  split at ok
  · next found hfound =>
    left
    have hmem := List.mem_of_find?_eq_some hfound
    have hash : found.configHash = proxy.configHash := by simpa using List.find?_some hfound
    obtain rfl := Except.ok.inj ok
    rw [Store.insertMember_nodes]
    apply List.map_congr_left
    intro row hr
    have hkey : row.id = found.id ↔ proxy.configHash = row.configHash := by
      constructor
      · intro hid
        rw [RowUpdates.eq_of_key_eq keyed.ids hr hmem hid, hash]
      · intro hsame
        rw [RowUpdates.eq_of_key_eq keyed.hashes hr hmem (hsame.symm.trans hash.symm)]
    by_cases hid : row.id = found.id
    · simp [hid, hkey.mp hid]
    · rw [if_neg (mt hkey.mpr hid)]
      simp [hid]
  · next hnone =>
    right
    split at ok
    · cases ok
    · obtain rfl := Except.ok.inj ok
      refine ⟨fun row hr hsame => ?_, Store.insertMember_nodes _ _⟩
      have hother := List.find?_eq_none.mp hnone row hr
      simp [hsame] at hother

/-- A row after all the ingests of its identity in a batch. -/
def Node.afterBatch (row : Node F) (now : Time) (generation : ℤ) (batch : List ParsedProxy) :
    Node F :=
  LastWrites.absorb (·.configHash) (·.configHash)
    (fun row proxy => row.reingested now proxy generation) batch row

omit [F64 F] in
/-- A column that no ingest sets. -/
theorem Node.afterBatch_kept {α : Type*} (column : Node F → α) {now : Time} {generation : ℤ}
    (kept : ∀ (row : Node F) (proxy : ParsedProxy),
      column (row.reingested now proxy generation) = column row)
    (batch : List ParsedProxy) (row : Node F) :
    column (row.afterBatch now generation batch) = column row :=
  LastWrites.absorb_kept column kept batch row

omit [F64 F] in
theorem Node.configHash_afterBatch (row : Node F) (now : Time) (generation : ℤ)
    (batch : List ParsedProxy) :
    (row.afterBatch now generation batch).configHash = row.configHash :=
  Node.afterBatch_kept (·.configHash) (fun _ _ => rfl) batch row

omit [F64 F] in
/-- What a snapshot reads of a row after a batch. -/
theorem Node.feedColumns_afterBatch (row : Node F) (now : Time) (generation : ℤ)
    (batch : List ParsedProxy) : (row.afterBatch now generation batch).feedColumns =
      row.feedColumns.ingested batch := by
  have hvalid : (row.afterBatch now generation batch).structurallyValid =
      row.structurallyValid :=
    Node.afterBatch_kept (·.structurallyValid) (fun _ _ => rfl) batch row
  have hlease : (row.afterBatch now generation batch).publicationLeaseUntil =
      row.publicationLeaseUntil :=
    Node.afterBatch_kept (·.publicationLeaseUntil) (fun _ _ => rfl) batch row
  have hscore : (row.afterBatch now generation batch).healthScore = row.healthScore :=
    Node.afterBatch_kept (·.healthScore) (fun _ _ => rfl) batch row
  have hraw : (row.afterBatch now generation batch).rawConfig =
      ((LastWrites.last (·.configHash) row.configHash batch).map (·.rawConfig)).getD
        row.rawConfig :=
    LastWrites.absorb_last Node.rawConfig ParsedProxy.rawConfig (fun _ _ => rfl) batch row
  have hstate : (row.afterBatch now generation batch).lifecycleState =
      if row.configHash ∈ batch.map (·.configHash) then
        if row.lifecycleState = .retired then .candidate else row.lifecycleState
      else row.lifecycleState := by
    apply LastWrites.absorb_once Node.lifecycleState
      (fun state => if state = .retired then .candidate else state) (fun _ _ => rfl)
    intro state
    cases state <;> rfl
  unfold Node.feedColumns FeedColumns.ingested
  rw [row.configHash_afterBatch, hvalid, hlease, hscore, hraw, hstate]

/-- The rows after a batch: the earlier ones after the ingests of their identities, and new
ones without a lease. -/
theorem Store.nodes_ingestMany (keyed : s.WellKeyed) {now : Time} {generation : ℤ}
    {batch : List ParsedProxy} {newId : ℕ → String} {t : Store F} {inserted : ℕ}
    (ok : s.ingestMany now generation batch newId = .ok (t, inserted)) :
    ∃ added, t.nodes = s.nodes.map (·.afterBatch now generation batch) ++ added ∧
      ∀ row ∈ added, row.publicationLeaseUntil = none := by
  suffices hall : t.WellKeyed ∧ ∃ added,
      t.nodes = s.nodes.map (·.afterBatch now generation batch) ++ added ∧
      ∀ row ∈ added, row.publicationLeaseUntil = none from hall.2
  apply Store.ingestMany_rule (I := fun seen u => u.WellKeyed ∧ ∃ added,
    u.nodes = s.nodes.map (·.afterBatch now generation seen) ++ added ∧
    ∀ row ∈ added, Node.publicationLeaseUntil row = none) ok
  · exact ⟨keyed, [], by simp [Node.afterBatch], fun _ hr => nomatch hr⟩
  · rintro seen proxy - k - u v ⟨hkeyed, added, hnodes, hleases⟩ hone
    refine ⟨hkeyed.ingestOne hone, ?_⟩
    rcases Store.nodes_ingestOne hkeyed hone with hv | ⟨hfresh, hv⟩
    · refine ⟨added.map fun row => if proxy.configHash = row.configHash then
        row.reingested now proxy generation else row, ?_, ?_⟩
      · rw [hv, hnodes, List.map_append, List.map_map]
        congr 1
        apply List.map_congr_left
        intro row _
        rw [Function.comp_apply, Node.configHash_afterBatch, Node.afterBatch, Node.afterBatch,
          LastWrites.absorb_concat]
      · intro row hr
        obtain ⟨before, hb, rfl⟩ := List.mem_map.mp hr
        split
        · exact hleases before hb
        · exact hleases before hb
    · refine ⟨added ++ [Node.ingested now proxy (newId k) generation], ?_, ?_⟩
      · rw [hv, hnodes, List.append_assoc]
        congr 1
        apply List.map_congr_left
        intro row hr
        have hother : proxy.configHash ≠ row.configHash := by
          intro hsame
          refine hfresh (row.afterBatch now generation seen) ?_ ?_
          · rw [hnodes]
            exact List.mem_append_left _ (List.mem_map_of_mem hr)
          · rw [hsame, Node.configHash_afterBatch]
        rw [Node.afterBatch, Node.afterBatch, LastWrites.absorb_concat, if_neg hother]
      · intro row hr
        rcases List.mem_append.mp hr with hr | hr
        · exact hleases row hr
        · rw [List.mem_singleton.mp hr]
          rfl

end Batches

section Statements

variable {s t u : Store F}

/-- The same rows, up to columns that no snapshot reads. -/
def Store.SameFeed (s t : Store F) : Prop :=
  t.nodes.map (fun row => (row.id, row.feedColumns)) =
    s.nodes.map fun row => (row.id, row.feedColumns)

namespace Store.SameFeed

theorem of_nodes (h : t.nodes = s.nodes) : Store.SameFeed s t := by
  unfold Store.SameFeed
  rw [h]

theorem trans (h : Store.SameFeed s t) (h' : Store.SameFeed t u) : Store.SameFeed s u :=
  Eq.trans h' h

/-- A column that is read off the kept ones. -/
theorem map_eq {α : Type*} (h : Store.SameFeed s t) (column : String × FeedColumns F → α) :
    t.nodes.map (fun row => column (row.id, row.feedColumns)) =
      s.nodes.map fun row => column (row.id, row.feedColumns) := by
  have hmap := congrArg (List.map column) h
  simpa only [List.map_map, Function.comp_def] using hmap

theorem ids (h : Store.SameFeed s t) : t.nodes.map (·.id) = s.nodes.map (·.id) :=
  h.map_eq (·.1)

theorem hashes (h : Store.SameFeed s t) :
    t.nodes.map (·.configHash) = s.nodes.map (·.configHash) := h.map_eq (·.2.configHash)

theorem wellKeyed (h : Store.SameFeed s t) (keyed : s.WellKeyed) : t.WellKeyed := by
  constructor
  · rw [h.ids]
    exact keyed.ids
  · rw [h.hashes]
    exact keyed.hashes

theorem updateNodes (guard : Node F → Bool) {f : Node F → Node F}
    (id : ∀ row, (f row).id = row.id) (columns : ∀ row, (f row).feedColumns = row.feedColumns) :
    Store.SameFeed s (s.updateNodes guard f) := by
  unfold Store.SameFeed Store.updateNodes
  apply RowUpdates.map_updateWhere
  intro row
  rw [id, columns]

theorem copyCachedSourceGeneration (s : Store F) (name : String) (generation : ℤ) :
    Store.SameFeed s (s.copyCachedSourceGeneration name generation).1 := by
  unfold Store.copyCachedSourceGeneration
  split
  · exact .of_nodes rfl
  · refine Store.SameFeed.trans (.of_nodes ?_)
      (Store.SameFeed.updateNodes _ (fun _ => rfl) fun _ => rfl)
    exact Store.foldl_insertMember_nodes _ _ _

theorem recordInvalidConfigRejections (s : Store F) (now : Time) (source : String)
    (rejected : List String) :
    Store.SameFeed s (s.recordInvalidConfigRejections now source rejected) := by
  obtain ⟨events, hevents⟩ := s.exists_recordInvalidConfigRejections now source rejected
  rw [hevents]
  exact .of_nodes rfl

end Store.SameFeed

/-- A reconciliation retires only rows that no later snapshot publishes. -/
theorem Store.rawConfigs_reconcile [F64 F] (s : Store F) {now time : Time} (after : now ≤ time)
    (generation : ℤ) (minimum : ℕ) :
    ((s.reconcile now generation minimum).publicationSnapshot time).rawConfigs =
      (s.publicationSnapshot time).rawConfigs := by
  rw [Store.rawConfigs_publicationSnapshot, Store.rawConfigs_publicationSnapshot]
  unfold Store.reconcile Store.updateNodes RowUpdates.updateWhere
  dsimp only
  rw [List.map_map, List.map_map]
  apply FeedColumns.feed_congr
  intro row _
  simp only [Function.comp_apply]
  have hmissed : (if row.missedBy generation = true then row.missed else row).feedColumns =
      row.feedColumns := by
    split <;> rfl
  generalize (if row.missedBy generation = true then row.missed else row) = missed at hmissed ⊢
  by_cases hout : missed.retirable now minimum = true
  · right
    rw [if_pos hout, ← hmissed, Node.publishable_feedColumns, Node.publishable_feedColumns]
    have hexpired : missed.leaseExpired time = true := by
      simp only [Node.retirable, Bool.and_eq_true] at hout
      have hlease := hout.2
      revert hlease
      unfold Node.leaseExpired
      cases missed.publicationLeaseUntil with
      | none => exact id
      | some lease => simpa using fun hlease => le_trans hlease after
    have hretired : (missed.retired now).leaseExpired time = missed.leaseExpired time := rfl
    exact ⟨by simp [Node.publishable, hretired, hexpired], by simp [Node.publishable, hexpired]⟩
  · left
    rw [if_neg hout, hmissed]

end Statements

section Runs

/-- An answer of a source. -/
abbrev SourceAnswer := SubscriptionSource × Except String FetchResult

/-- What the surroundings of a refresh decide apart from the answers. -/
structure RefreshSchedule where
  runId : String
  started : Time
  answered : SourceAnswer → Time
  finished : Time
  newId : ℕ → String

variable [F64 F] (lib : Libraries)

/-- The two statements that an answer leads to. -/
def RefreshSchedule.answerSteps (schedule : RefreshSchedule) (answer : SourceAnswer) :
    List (RefreshStep F) :=
  [.answer (schedule.answered answer) answer.1 answer.2, .resume (schedule.answered answer)]

/-- A refresh whose answers arrive in the given order. -/
def RefreshSchedule.steps (schedule : RefreshSchedule) (sources : List SubscriptionSource)
    (answers : List SourceAnswer) (minimum : ℕ) : List (RefreshStep F) :=
  .begin schedule.started schedule.runId sources :: answers.flatMap schedule.answerSteps ++
    [.ingest schedule.finished schedule.newId, .finishRun schedule.finished,
      .reconcile schedule.finished minimum]

/-- The store after a refresh of the sources of the answers. -/
def Store.refreshed (s : Store F) (schedule : RefreshSchedule) (fetched answers : List SourceAnswer)
    (minimum : ℕ) : Store F :=
  (ObservedRuns.run (RefreshWorld.step lib) { store := s }
    (schedule.steps (fetched.map Prod.fst) answers minimum)).store

/-- What the parser accepts of an answer. -/
def acceptedIn (answer : SourceAnswer) : List ParsedProxy :=
  match answer.2 with
  | .ok (.body body _ _) => (parseSubscription lib body answer.1.name).accepted
  | _ => []

/-- A refresh with some of its answers. -/
structure Gathered (s : Store F) (parsed : List ParsedProxy)
    (remaining : List SubscriptionSource) (w : RefreshWorld F) (p : RefreshProgress) : Prop where
  progress : w.progress = some p
  phase : p.phase = .fetching
  remaining : p.remaining.Perm remaining
  parsed : p.parsed = parsed
  same : s.SameFeed w.store

variable {lib} {s : Store F} {parsed : List ParsedProxy} {rest : List SubscriptionSource}
  {w : RefreshWorld F} {p : RefreshProgress}

variable (lib) in
/-- An answer adds what the parser accepts of it, and changes no row for a reader. -/
theorem Gathered.answer {answer : SourceAnswer}
    (h : Gathered s parsed (answer.1 :: rest) w p) (schedule : RefreshSchedule) :
    ∃ p', Gathered s (parsed ++ acceptedIn lib answer) rest
      (ObservedRuns.run (RefreshWorld.step lib) w (schedule.answerSteps answer)) p' := by
  obtain ⟨source, result⟩ := answer
  have hasked : source ∈ p.remaining := h.remaining.mem_iff.mpr List.mem_cons_self
  have herased : (p.remaining.erase source).Perm rest := by
    have hperm := h.remaining.erase source
    rwa [List.erase_cons_head] at hperm
  simp only [RefreshSchedule.answerSteps, ObservedRuns.run_cons, ObservedRuns.run_nil]
  generalize schedule.answered (source, result) = time
  cases result with
  | error error =>
    refine ⟨p.recordError source error, ?_⟩
    simp only [RefreshWorld.step, h.progress, h.phase, if_pos hasked,
      RefreshProgress.recordError, acceptedIn, List.append_nil]
    exact ⟨rfl, rfl, herased, h.parsed,
      h.same.trans (.of_nodes (Store.recordSourceFailure_nodes _ _ _))⟩
  | ok result =>
    cases result with
    | notModified =>
      generalize hcopy : w.store.copyCachedSourceGeneration source.name p.generation = copy
      have hsame := Store.SameFeed.copyCachedSourceGeneration w.store source.name p.generation
      rw [hcopy] at hsame
      refine ⟨(p.recordCopy source copy.2).addCopied copy.2, ?_⟩
      simp only [RefreshWorld.step, h.progress, h.phase, if_pos hasked, hcopy,
        RefreshProgress.recordCopy, acceptedIn, List.append_nil]
      exact ⟨rfl, rfl, herased, h.parsed,
        (h.same.trans hsame).trans (.of_nodes (Store.recordSourceSuccess_nodes _ _ _ _ _ _))⟩
    | body body etag lastModified =>
      refine ⟨(p.recordBody source body).extend (parseSubscription lib body source.name), ?_⟩
      simp only [RefreshWorld.step, h.progress, h.phase, if_pos hasked,
        RefreshProgress.recordBody, acceptedIn]
      refine ⟨rfl, rfl, herased, congrArg (· ++ _) h.parsed, ?_⟩
      exact (h.same.trans (.of_nodes (Store.recordSourceSuccess_nodes _ _ _ _ _ _))).trans
        (Store.SameFeed.recordInvalidConfigRejections _ _ _ _)

/-- So do all the answers, in their order. -/
theorem Gathered.answers {answers : List SourceAnswer}
    (h : Gathered s parsed (answers.map Prod.fst) w p) (schedule : RefreshSchedule) :
    ∃ p', Gathered s (parsed ++ answers.flatMap (acceptedIn lib)) []
      (ObservedRuns.run (RefreshWorld.step lib) w
        (answers.flatMap schedule.answerSteps)) p' := by
  induction answers generalizing parsed w p with
  | nil => exact ⟨p, by simpa using h⟩
  | cons answer answers ih =>
    obtain ⟨q, hq⟩ := h.answer lib schedule
    obtain ⟨r, hr⟩ := ih hq
    refine ⟨r, ?_⟩
    rw [List.flatMap_cons, List.flatMap_cons, ObservedRuns.run_append, ← List.append_assoc]
    exact hr

/-- New ids are not taken, and do not repeat. -/
structure RefreshSchedule.FreshIds (schedule : RefreshSchedule) (s : Store F) : Prop where
  untaken : ∀ i, schedule.newId i ∉ s.nodes.map (·.id)
  distinct : Function.Injective schedule.newId

theorem Store.exists_ingestOne {u : Store F} {id : String} (untaken : id ∉ u.nodes.map (·.id))
    (now : Time) (proxy : ParsedProxy) (generation : ℤ) :
    ∃ v, u.ingestOne now proxy id generation = .ok v := by
  unfold Store.ingestOne
  dsimp only
  split
  · exact ⟨_, rfl⟩
  · have hnone : (u.nodes.any fun row => row.id = id) = false := by
      rw [List.any_eq_false]
      intro row hr
      have hne : row.id ≠ id := fun he => untaken (he ▸ List.mem_map_of_mem hr)
      simpa using hne
    rw [if_neg (by simp [hnone])]
    exact ⟨_, rfl⟩

/-- The ids after an ingest. -/
theorem Store.ids_ingestOne {u v : Store F} (keyed : u.WellKeyed) {now : Time}
    {proxy : ParsedProxy} {id : String} {generation : ℤ}
    (ok : u.ingestOne now proxy id generation = .ok v) {other : String}
    (h : other ∈ v.nodes.map (·.id)) : other ∈ u.nodes.map (·.id) ∨ other = id := by
  rcases Store.nodes_ingestOne keyed ok with hv | ⟨-, hv⟩
  · left
    rw [hv, List.map_map] at h
    obtain ⟨row, hr, rfl⟩ := List.mem_map.mp h
    have hid : (if proxy.configHash = row.configHash then row.reingested now proxy generation
        else row).id = row.id := by split <;> rfl
    rw [Function.comp_apply, hid]
    exact List.mem_map_of_mem hr
  · rw [hv, List.map_append, List.mem_append] at h
    exact h.imp_right List.mem_singleton.mp

/-- A batch with fresh ids goes through. -/
theorem Store.exists_ingestMany {s : Store F} (keyed : s.WellKeyed) {newId : ℕ → String}
    (untaken : ∀ i, newId i ∉ s.nodes.map (·.id)) (distinct : Function.Injective newId)
    (now : Time) (generation : ℤ) (batch : List ParsedProxy) :
    ∃ t inserted, s.ingestMany now generation batch newId = .ok (t, inserted) := by
  have hfold : ∀ (items : List (ParsedProxy × ℕ)) (u : Store F) (count : ℕ), u.WellKeyed →
      (items.map Prod.snd).Nodup → (∀ item ∈ items, newId item.2 ∉ u.nodes.map (·.id)) →
      ∃ t inserted, items.foldlM
        (fun acc item => do
          let known := acc.1.nodes.any fun row => row.configHash = item.1.configHash
          let s ← acc.1.ingestOne now item.1 (newId item.2) generation
          .ok (s, if known then acc.2 else acc.2 + 1))
        (u, count) = (.ok (t, inserted) : Except String (Store F × ℕ)) := by
    intro items
    induction items with
    | nil => exact fun u count _ _ _ => ⟨u, count, rfl⟩
    | cons item items ih =>
      intro u count hkeyed hnodup hfresh
      rw [List.map_cons, List.nodup_cons] at hnodup
      obtain ⟨v, hone⟩ := Store.exists_ingestOne (hfresh item List.mem_cons_self) now item.1
        generation
      rw [List.foldlM_cons]
      simp only [hone, bind, Except.bind]
      refine ih v _ (hkeyed.ingestOne hone) hnodup.2 fun other ho htaken => ?_
      rcases Store.ids_ingestOne hkeyed hone htaken with hold | hsame
      · exact hfresh other (List.mem_cons_of_mem _ ho) hold
      · rw [← distinct hsame] at hnodup
        exact hnodup.1 (List.mem_map_of_mem ho)
  refine hfold batch.zipIdx s 0 keyed ?_ fun item _ => untaken item.2
  rw [List.zipIdx_map_snd]
  exact List.nodup_range'

variable (lib) in
/-- After the ingest a refresh records its run, and reconciles if it is complete. -/
theorem store_finished (progress : w.progress = some p) (phase : p.phase = .ingested)
    (now : Time) (minimum : ℕ) : ∃ status,
    (ObservedRuns.run (RefreshWorld.step lib) w [.finishRun now, .reconcile now minimum]).store =
        w.store.recordFinishedRun now p.runId status p.successfulSources p.accepted ∨
      (ObservedRuns.run (RefreshWorld.step lib) w [.finishRun now, .reconcile now minimum]).store =
        (w.store.recordFinishedRun now p.runId status p.successfulSources p.accepted).reconcile now
          p.generation minimum := by
  by_cases hcomplete : p.complete = true
  · refine ⟨.complete, .inr ?_⟩
    simp only [ObservedRuns.run_cons, ObservedRuns.run_nil, RefreshWorld.step, progress, phase,
      if_pos hcomplete]
  · refine ⟨.partialRun, .inl ?_⟩
    simp only [ObservedRuns.run_cons, ObservedRuns.run_nil, RefreshWorld.step, progress, phase,
      if_neg hcomplete]

/-- A batch leaves the feed columns of the earlier rows after its ingests, and rows that no
snapshot shows. -/
theorem Store.feed_ingestMany {u t : Store F} (keyed : u.WellKeyed) {now : Time}
    {generation : ℤ} {batch : List ParsedProxy} {newId : ℕ → String} {inserted : ℕ}
    (ok : u.ingestMany now generation batch newId = .ok (t, inserted)) (time : Time) :
    FeedColumns.feed (t.nodes.map Node.feedColumns) time =
      FeedColumns.feed ((u.nodes.map Node.feedColumns).map (·.ingested batch)) time := by
  obtain ⟨added, hadded, hleases⟩ := Store.nodes_ingestMany keyed ok
  have hbatch : (u.nodes.map (·.afterBatch now generation batch)).map Node.feedColumns =
      (u.nodes.map Node.feedColumns).map (·.ingested batch) := by
    rw [List.map_map, List.map_map]
    exact List.map_congr_left fun row _ => row.feedColumns_afterBatch now generation batch
  rw [hadded, List.map_append, hbatch]
  apply FeedColumns.feed_append
  intro c hc
  obtain ⟨row, hr, rfl⟩ := List.mem_map.mp hc
  have hlease : row.feedColumns.leased time = false := by
    rw [FeedColumns.leased, Node.feedColumns, hleases row hr]
    rfl
  simp [FeedColumns.publishable, hlease]

/-- A snapshot after a refresh shows the rows before it after the ingests of the answers, in
the order of their arrival. -/
theorem Store.rawConfigs_refreshed (keyed : s.WellKeyed) {schedule : RefreshSchedule}
    (fresh : schedule.FreshIds s) {fetched answers : List SourceAnswer}
    (order : answers.Perm fetched) (minimum : ℕ) {time : Time}
    (after : schedule.finished ≤ time) :
    ((s.refreshed lib schedule fetched answers minimum).publicationSnapshot time).rawConfigs =
      FeedColumns.feed ((s.nodes.map Node.feedColumns).map
        (·.ingested (answers.flatMap (acceptedIn lib)))) time := by
  have hbegun : Gathered s [] (answers.map Prod.fst)
      (RefreshWorld.step lib { store := s }
        (.begin schedule.started schedule.runId (fetched.map Prod.fst)))
      { runId := schedule.runId, generation := s.nextGeneration,
        sourceCount := (fetched.map Prod.fst).length, remaining := fetched.map Prod.fst } :=
    ⟨rfl, rfl, (order.map Prod.fst).symm, rfl, .of_nodes rfl⟩
  obtain ⟨p, hp⟩ := hbegun.answers schedule
  unfold Store.refreshed RefreshSchedule.steps
  rw [List.cons_append, ObservedRuns.run_cons, ObservedRuns.run_append]
  generalize ObservedRuns.run (RefreshWorld.step lib) (RefreshWorld.step lib { store := s }
    (.begin schedule.started schedule.runId (fetched.map Prod.fst)))
    (answers.flatMap schedule.answerSteps) = w at hp ⊢
  obtain ⟨t, inserted, hok⟩ := Store.exists_ingestMany (hp.same.wellKeyed keyed)
    (fun i => hp.same.ids ▸ fresh.untaken i) fresh.distinct schedule.finished p.generation p.parsed
  have hingest : RefreshWorld.step lib w (.ingest schedule.finished schedule.newId) =
      { store := t
        progress := some { p with phase := .ingested }
        history := .ingested (p.parsed.map (·.configHash)) :: w.history } := by
    simp only [RefreshWorld.step, hp.progress, hp.phase, List.perm_nil.mp hp.remaining, hok]
  have hearlier : w.store.nodes.map Node.feedColumns = s.nodes.map Node.feedColumns :=
    hp.same.map_eq (·.2)
  have hrecorded : ∀ status successful accepted,
      ((t.recordFinishedRun schedule.finished p.runId status successful
        accepted).publicationSnapshot time).rawConfigs =
      FeedColumns.feed ((s.nodes.map Node.feedColumns).map
        (·.ingested (answers.flatMap (acceptedIn lib)))) time := by
    intro status successful accepted
    rw [Store.rawConfigs_publicationSnapshot, ← hearlier]
    have hfeed := Store.feed_ingestMany (hp.same.wellKeyed keyed) hok time
    rwa [hp.parsed, List.nil_append] at hfeed
  rw [ObservedRuns.run_cons, hingest]
  obtain ⟨status, hstore | hstore⟩ := store_finished lib
    (w := { store := t
            progress := some { p with phase := .ingested }
            history := .ingested (p.parsed.map (·.configHash)) :: w.history })
    rfl rfl schedule.finished minimum
  · rw [hstore]
    exact hrecorded status p.successfulSources p.accepted
  · rw [hstore, Store.rawConfigs_reconcile _ after]
    exact hrecorded status p.successfulSources p.accepted

/-- The last text that the answers bring for an identity. -/
def lastText (lib : Libraries) (answers : List SourceAnswer) (hash : String) : Option Text :=
  (LastWrites.last (·.configHash) hash (answers.flatMap (acceptedIn lib))).map (·.rawConfig)

/-- The row may be published at a time: it is valid and its lease outlasts the time. -/
def Node.Publishing (row : Node F) (time : Time) : Prop :=
  row.structurallyValid = true ∧ row.leaseExpired time = false ∧ row.lifecycleState ≠ .invalid

instance (row : Node F) (time : Time) : Decidable (row.Publishing time) :=
  inferInstanceAs (Decidable (_ ∧ _ ∧ _))

omit [F64 F] in
theorem Node.publishing_feedColumns (row : Node F) (time : Time) :
    row.feedColumns.Publishing time ↔ row.Publishing time := by
  unfold FeedColumns.Publishing Node.Publishing FeedColumns.leased Node.leaseExpired
    Node.feedColumns
  cases row.publicationLeaseUntil with
  | none => simp
  | some lease => simp

/-- Two completion orders of a refresh lead to the same feed exactly if they bring the same last
text for every row that is published. -/
theorem feed_order_independent_iff (keyed : s.WellKeyed) {fetched first second : List SourceAnswer}
    (hfirst : first.Perm fetched) (hsecond : second.Perm fetched)
    {schedule other : RefreshSchedule} (fresh : schedule.FreshIds s) (fresh' : other.FreshIds s)
    (minimum : ℕ) {time : Time} (after : schedule.finished ≤ time)
    (after' : other.finished ≤ time) :
    ((s.refreshed lib schedule fetched first minimum).publicationSnapshot time).rawConfigs =
        ((s.refreshed lib other fetched second minimum).publicationSnapshot time).rawConfigs ↔
      ∀ row ∈ s.nodes, row.Publishing time →
        lastText lib first row.configHash = lastText lib second row.configHash := by
  have hperm : (first.flatMap (acceptedIn lib)).Perm (second.flatMap (acceptedIn lib)) :=
    (hfirst.trans hsecond.symm).flatMap_right _
  rw [Store.rawConfigs_refreshed keyed fresh hfirst minimum after,
    Store.rawConfigs_refreshed keyed fresh' hsecond minimum after',
    FeedColumns.feed_ingested_iff hperm]
  constructor
  · intro h row hr publishing
    exact h row.feedColumns (List.mem_map_of_mem hr)
      ((row.publishing_feedColumns time).mpr publishing)
  · intro h c hc publishing
    obtain ⟨row, hr, rfl⟩ := List.mem_map.mp hc
    exact h row hr ((row.publishing_feedColumns time).mp publishing)

end Runs

/-- Two spellings of the sample URL with different remarks. -/
def remarkedText (remark : String) : Text :=
  "trojan://secret@host.example:443#".toList ++ remark.toList

def remarkLibraries : Libraries :=
  { sampleLibraries with
    parseUrl := fun raw =>
      match splitOnce '#' raw with
      | some (url, remark) =>
        (sampleLibraries.parseUrl url).map fun parsed => { parsed with fragment := some remark }
      | none => sampleLibraries.parseUrl raw }

/-- The answer of a source whose body has one line. -/
def remarkedAnswer (name remark : String) : SourceAnswer :=
  (⟨name, "https://" ++ name⟩,
    .ok (.body (remarkedText remark ++ ['\n']) none none))

def sampleSchedule : RefreshSchedule where
  runId := "run"
  started := minutes 2
  answered _ := minutes 2
  finished := minutes 3
  newId i := String.ofList (List.replicate i 'x')

theorem sampleSchedule_freshIds :
    sampleSchedule.FreshIds (Store.empty.writes downloadedRun : Store ℚ) := by
  constructor
  · intro i hi
    have hids : ((Store.empty.writes downloadedRun : Store ℚ).nodes.map (·.id)) = ["node"] := by
      decide +kernel
    rw [hids, List.mem_singleton] at hi
    have hletters := congrArg String.toList hi
    rw [sampleSchedule, String.toList_ofList] at hletters
    have hn : 'n' ∈ List.replicate i 'x' := by
      rw [hletters]
      decide
    exact absurd (List.eq_of_mem_replicate hn) (by decide)
  · intro i j hij
    have hlength := congrArg (fun text => text.toList.length) hij
    simpa [sampleSchedule] using hlength

/-- Two sources that agree on the text. -/
def agreeingAnswers : List SourceAnswer := [remarkedAnswer "a" "name", remarkedAnswer "b" "name"]

theorem feed_order_independent_iff_agreeing :
    (((Store.empty.writes downloadedRun : Store ℚ).refreshed remarkLibraries sampleSchedule
      agreeingAnswers agreeingAnswers 3).publicationSnapshot (minutes 4)).rawConfigs =
    (((Store.empty.writes downloadedRun : Store ℚ).refreshed remarkLibraries sampleSchedule
      agreeingAnswers agreeingAnswers.reverse 3).publicationSnapshot (minutes 4)).rawConfigs :=
  (feed_order_independent_iff (Store.wellKeyed_empty.writes _) (.refl _)
    (List.reverse_perm _) sampleSchedule_freshIds sampleSchedule_freshIds 3 (by decide)
    (by decide)).mpr (by decide +kernel)

/-- Two sources name the published row differently: the one that answers last is published. -/
theorem feed_not_order_independent :
    ¬ ∀ (lib : Libraries) (s : Store ℚ) (fetched first second : List SourceAnswer)
      (schedule other : RefreshSchedule) (minimum : ℕ) (time : Time), s.WellKeyed →
      first.Perm fetched → second.Perm fetched → schedule.FreshIds s → other.FreshIds s →
      schedule.finished ≤ time → other.finished ≤ time →
      ((s.refreshed lib schedule fetched first minimum).publicationSnapshot time).rawConfigs =
        ((s.refreshed lib other fetched second minimum).publicationSnapshot time).rawConfigs := by
  intro h
  have hsame := h remarkLibraries (Store.empty.writes downloadedRun)
    [remarkedAnswer "a" "first", remarkedAnswer "b" "second"]
    [remarkedAnswer "a" "first", remarkedAnswer "b" "second"]
    [remarkedAnswer "b" "second", remarkedAnswer "a" "first"] sampleSchedule sampleSchedule 3
    (minutes 4) (Store.wellKeyed_empty.writes _) (.refl _) (.swap _ _ _)
    sampleSchedule_freshIds sampleSchedule_freshIds (by decide) (by decide)
  revert hsame
  decide +kernel

end ProxyFleet
