import ProxyFleet.SourceMembership
import ProxyFleet.SubscriptionParser

/-!
# Upstream refreshes

A refresh asks every source once, records each answer as it arrives, ingests what the
bodies contained, and finishes its generation. It is a sequence of separate
database statements, and the process may stop between any two of them. Only one
refresh is in progress at a time. A history records what happened beside the code.
-/
namespace ProxyFleet

variable {F : Type}

structure SubscriptionSource where
  name : String
  url : String
  deriving DecidableEq

inductive FetchResult where
  | body (body : Text) (etag lastModified : Option String)
  | notModified

/-- The statement that the refresh has reached. -/
inductive RefreshPhase where
  | fetching
  | bodyRecorded (source : SubscriptionSource) (body : Text)
  | membersCopied (source : SubscriptionSource) (copied : ℕ)
  | ingested
  | runRecorded

/-- The variables of a refresh. -/
structure RefreshProgress where
  runId : String
  generation : ℤ
  sourceCount : ℕ
  /-- The sources without an answer. -/
  remaining : List SubscriptionSource
  phase : RefreshPhase := .fetching
  successfulSources : ℕ := 0
  accepted : ℕ := 0
  rejected : ℕ := 0
  parsed : List ParsedProxy := []
  errors : List String := []

/-- What a refresh did, as an observer of the sources sees it. -/
inductive RefreshEvent where
  | begun (generation : ℤ)
  | body (generation : ℤ) (time : Time) (source : String) (etag lastModified : Option String)
      (identities : List String)
  | notModified (generation : ℤ) (time : Time) (source : String) (identities : List String)
  | ingested (identities : List String)
  | completed (generation : ℤ)
  | ended
  | stopped

structure RefreshWorld (F : Type) where
  store : Store F := {}
  progress : Option RefreshProgress := none
  /-- What happened so far, newest first. The service does not read it. -/
  history : List RefreshEvent := []

/-- The statements of a refresh, its end by an error or a crash, and the other writes. -/
inductive RefreshStep (F : Type) where
  | begin (now : Time) (runId : String) (sources : List SubscriptionSource)
  | answer (now : Time) (source : SubscriptionSource) (result : Except String FetchResult)
  | resume (now : Time)
  | ingest (now : Time) (newId : ℕ → String)
  | finishRun (now : Time)
  | reconcile (now : Time) (minimumMissingGenerations : ℕ)
  | stop
  | other (w : Write F)

namespace RefreshProgress

variable (p : RefreshProgress)

def complete : Bool := decide (0 < p.sourceCount ∧ p.successfulSources = p.sourceCount)

def recordBody (source : SubscriptionSource) (body : Text) : RefreshProgress :=
  { p with
    remaining := p.remaining.erase source
    phase := .bodyRecorded source body
    successfulSources := p.successfulSources + 1 }

def recordCopy (source : SubscriptionSource) (copied : ℕ) : RefreshProgress :=
  { p with
    remaining := p.remaining.erase source
    phase := .membersCopied source copied
    successfulSources := p.successfulSources + 1 }

def recordError (source : SubscriptionSource) (error : String) : RefreshProgress :=
  { p with
    remaining := p.remaining.erase source
    errors := p.errors ++ [source.name ++ ": " ++ error] }

def extend (report : ParseReport) : RefreshProgress :=
  { p with
    phase := .fetching
    accepted := p.accepted + report.accepted.length
    rejected := p.rejected + report.rejected.length
    parsed := p.parsed ++ report.accepted }

def addCopied (copied : ℕ) : RefreshProgress :=
  { p with phase := .fetching, accepted := p.accepted + copied }

end RefreshProgress

/-- The identities of the newest body that carried the validator. -/
def carrier (name : String) (v : Validator) : List RefreshEvent → Option (List String)
  | [] => none
  | .body _ _ source etag lastModified identities :: history =>
    let carried := match v with
      | .etag => etag
      | .lastModified => lastModified
    if source = name ∧ carried.isSome then some identities else carrier name v history
  | _ :: history => carrier name v history

/-- The content that a source confirms with a `304`: that of the body whose validator was
sent, where the entity tag goes before the date. -/
def confirmedContent (s : Store F) (name : String) (history : List RefreshEvent) : List String :=
  match s.cachedValidator name .etag, s.cachedValidator name .lastModified with
  | some _, _ => (carrier name .etag history).getD []
  | none, some _ => (carrier name .lastModified history).getD []
  | none, none => []

section Batches

variable [F64 F]

/-- The batch is one transaction: the first failure gives it up. -/
def Store.ingestMany (s : Store F) (now : Time) (generation : ℤ) (batch : List ParsedProxy)
    (newId : ℕ → String) : Except String (Store F × ℕ) :=
  batch.zipIdx.foldlM
    (fun acc item => do
      let known := acc.1.nodes.any fun row => row.configHash = item.1.configHash
      let s ← acc.1.ingestOne now item.1 (newId item.2) generation
      .ok (s, if known then acc.2 else acc.2 + 1))
    (s, 0)

/-- The writes of a batch. -/
def ingestWrites (now : Time) (generation : ℤ) (batch : List ParsedProxy) (newId : ℕ → String) :
    List (Write F) :=
  batch.zipIdx.map fun item => .ingestOne now item.1 (newId item.2) generation

theorem Store.write_ingestOne {s t : Store F} {now : Time} {proxy : ParsedProxy} {id : String}
    {generation : ℤ} (ok : s.ingestOne now proxy id generation = .ok t) :
    s.write (.ingestOne now proxy id generation) = t := by
  rw [Store.write, ok, Store.commit_ok]

theorem Store.WellKeyed.ingestOne {s t : Store F} (hk : s.WellKeyed) {now : Time}
    {proxy : ParsedProxy} {id : String} {generation : ℤ}
    (ok : s.ingestOne now proxy id generation = .ok t) : t.WellKeyed := by
  rw [← Store.write_ingestOne ok]
  exact hk.write _

/-- A batch that goes through is a run of single ingests, each of which goes through. -/
theorem Store.ingestMany_ok {s t : Store F} {now : Time} {generation : ℤ}
    {batch : List ParsedProxy} {newId : ℕ → String} {inserted : ℕ}
    (h : s.ingestMany now generation batch newId = .ok (t, inserted)) :
    t = s.writes (ingestWrites now generation batch newId) ∧
      ObservedRuns.Admitted Store.write
        (fun s w => ∃ now proxy id g, w = .ingestOne now proxy id g ∧
          ∃ t, s.ingestOne now proxy id g = .ok t)
        s (ingestWrites now generation batch newId) := by
  unfold ingestMany at h
  unfold ingestWrites
  generalize batch.zipIdx = items at h ⊢
  generalize 0 = count at h
  induction items generalizing s count with
  | nil =>
    simp only [List.foldlM_nil, pure, Except.pure, Except.ok.injEq, Prod.mk.injEq] at h
    exact ⟨h.1.symm, trivial⟩
  | cons item items ih =>
    rw [List.foldlM_cons] at h
    cases hone : s.ingestOne now item.1 (newId item.2) generation with
    | error e => simp [hone, bind, Except.bind] at h
    | ok mid =>
      simp only [hone, bind, Except.bind] at h
      have hmid := Store.write_ingestOne hone
      obtain ⟨ht, hadm⟩ := ih _ h
      refine ⟨?_, ?_⟩
      · rw [List.map_cons, Store.writes, ObservedRuns.run_cons, hmid]
        exact ht
      · refine ⟨⟨now, item.1, newId item.2, generation, rfl, mid, hone⟩, ?_⟩
        rw [hmid]
        exact hadm

theorem Store.WellKeyed.ingestMany {s t : Store F} (hk : s.WellKeyed) {now : Time}
    {generation : ℤ} {batch : List ParsedProxy} {newId : ℕ → String} {inserted : ℕ}
    (ok : s.ingestMany now generation batch newId = .ok (t, inserted)) : t.WellKeyed := by
  rw [(Store.ingestMany_ok ok).1]
  exact hk.writes _

/-- What holds before a batch and is kept by each of its single ingests holds after it. -/
theorem Store.ingestMany_rule {s t : Store F} {now : Time} {generation : ℤ}
    {batch : List ParsedProxy} {newId : ℕ → String} {inserted : ℕ}
    {I : List ParsedProxy → Store F → Prop}
    (h : s.ingestMany now generation batch newId = .ok (t, inserted)) (start : I [] s)
    (step : ∀ seen, ∀ proxy ∈ batch, ∀ k < batch.length, ∀ u v, I seen u →
      u.ingestOne now proxy (newId k) generation = .ok v → I (seen ++ [proxy]) v) : I batch t := by
  have hfold : ∀ (items : List (ParsedProxy × ℕ)) (seen : List ParsedProxy) (u : Store F)
      (count : ℕ), (∀ item ∈ items, item.1 ∈ batch ∧ item.2 < batch.length) → I seen u →
      items.foldlM
        (fun acc item => do
          let known := acc.1.nodes.any fun row => row.configHash = item.1.configHash
          let s ← acc.1.ingestOne now item.1 (newId item.2) generation
          .ok (s, if known then acc.2 else acc.2 + 1))
        (u, count) = (.ok (t, inserted) : Except String (Store F × ℕ)) →
      I (seen ++ items.map Prod.fst) t := by
    intro items
    induction items with
    | nil =>
      intro seen u count _ hu hok
      simp only [List.foldlM_nil, pure, Except.pure, Except.ok.injEq, Prod.mk.injEq] at hok
      rw [List.map_nil, List.append_nil, ← hok.1]
      exact hu
    | cons item items ih =>
      intro seen u count hitems hu hok
      rw [List.foldlM_cons] at hok
      cases hone : u.ingestOne now item.1 (newId item.2) generation with
      | error e => simp [hone, bind, Except.bind] at hok
      | ok mid =>
        simp only [hone, bind, Except.bind] at hok
        obtain ⟨hproxy, hindex⟩ := hitems item List.mem_cons_self
        have hmid := step seen item.1 hproxy item.2 hindex u mid hu hone
        have hrest := ih (seen ++ [item.1]) mid _
          (fun other ho => hitems other (List.mem_cons_of_mem _ ho)) hmid hok
        rwa [List.append_assoc] at hrest
  have hitems : ∀ item ∈ batch.zipIdx, item.1 ∈ batch ∧ item.2 < batch.length :=
    fun item hi => ⟨List.fst_mem_of_mem_zipIdx hi, (List.mem_zipIdx' hi).1⟩
  have hall := hfold batch.zipIdx [] s 0 hitems start h
  rwa [List.nil_append, List.zipIdx_map_fst] at hall

theorem Store.ingestOne_upstream {s t : Store F} {now : Time} {proxy : ParsedProxy} {id : String}
    {generation : ℤ} (h : s.ingestOne now proxy id generation = .ok t) :
    (∀ m, m ∈ t.members ↔ m ∈ s.members ∨ m = ⟨generation, proxy.source, proxy.configHash⟩) ∧
      t.sources = s.sources ∧ t.refreshRuns = s.refreshRuns := by
  unfold ingestOne at h
  dsimp only at h
  split at h
  · obtain rfl := Except.ok.inj h
    exact ⟨fun m => mem_insertMember _, insertMember_sources _ _, insertMember_refreshRuns _ _⟩
  · split at h
    · cases h
    · obtain rfl := Except.ok.inj h
      exact ⟨fun m => mem_insertMember _, insertMember_sources _ _, insertMember_refreshRuns _ _⟩

/-- What a batch that goes through adds to the upstream tables. -/
theorem Store.members_ingestMany {s t : Store F} {now : Time} {generation : ℤ}
    {batch : List ParsedProxy} {newId : ℕ → String} {inserted : ℕ}
    (h : s.ingestMany now generation batch newId = .ok (t, inserted)) :
    (∀ m, m ∈ t.members ↔ m ∈ s.members ∨
      ∃ proxy ∈ batch, m = ⟨generation, proxy.source, proxy.configHash⟩) ∧
    t.sources = s.sources ∧ t.refreshRuns = s.refreshRuns := by
  apply Store.ingestMany_rule (I := fun seen u => (∀ m, m ∈ u.members ↔ m ∈ s.members ∨
    ∃ proxy ∈ seen, m = ⟨generation, proxy.source, proxy.configHash⟩) ∧
    u.sources = s.sources ∧ u.refreshRuns = s.refreshRuns) h
  · simp
  · rintro seen proxy - k - u v ⟨hmembers, hsources, hruns⟩ hone
    have hstep := Store.ingestOne_upstream hone
    refine ⟨fun m => ?_, hstep.2.1.trans hsources, hstep.2.2.trans hruns⟩
    rw [hstep.1 m, hmembers m, or_assoc]
    apply or_congr_right
    simp only [List.mem_append, List.mem_singleton, or_and_right, exists_or, exists_eq_left]

end Batches

namespace RefreshWorld

variable [F64 F] (lib : Libraries)

/-- The identities that the parser accepts in a body. -/
def bodyIdentities (source : SubscriptionSource) (body : Text) : List String :=
  (parseSubscription lib body source.name).accepted.map (·.configHash)

/-- The effect of one step. A step out of turn does nothing. -/
def step (w : RefreshWorld F) : RefreshStep F → RefreshWorld F
  | .begin now runId sources =>
    match w.progress with
    | some _ => w
    | none =>
      { store := w.store.beginRefresh now runId sources.length
        progress := some {
          runId := runId
          generation := w.store.nextGeneration
          sourceCount := sources.length
          remaining := sources }
        history := .begun w.store.nextGeneration :: w.history }
  | .answer now source result =>
    match w.progress with
    | none => w
    | some p =>
      match p.phase with
      | .fetching =>
        if source ∈ p.remaining then
          match result with
          | .ok (.body body etag lastModified) =>
            { store := w.store.recordSourceSuccess now source.name source.url etag lastModified
              progress := some (p.recordBody source body)
              history := .body p.generation now source.name etag lastModified
                (bodyIdentities lib source body) :: w.history }
          | .ok .notModified =>
            let (store, copied) := w.store.copyCachedSourceGeneration source.name p.generation
            { store := store
              progress := some (p.recordCopy source copied)
              history := .notModified p.generation now source.name
                (confirmedContent w.store source.name w.history) :: w.history }
          | .error error =>
            { w with
              store := w.store.recordSourceFailure source.name source.url
              progress := some (p.recordError source error) }
        else w
      | _ => w
  | .resume now =>
    match w.progress with
    | none => w
    | some p =>
      match p.phase with
      | .bodyRecorded source body =>
        let report := parseSubscription lib body source.name
        { w with
          store := w.store.recordInvalidConfigRejections now source.name report.rejected
          progress := some (p.extend report) }
      | .membersCopied source copied =>
        { w with
          store := w.store.recordSourceSuccess now source.name source.url none none
          progress := some (p.addCopied copied) }
      | _ => w
  | .ingest now newId =>
    match w.progress with
    | none => w
    | some p =>
      match p.phase, p.remaining with
      | .fetching, [] =>
        match w.store.ingestMany now p.generation p.parsed newId with
        | .ok (store, _) =>
          { store := store
            progress := some { p with phase := .ingested }
            history := .ingested (p.parsed.map (·.configHash)) :: w.history }
        | .error _ => { w with progress := none, history := .stopped :: w.history }
      | _, _ => w
  | .finishRun now =>
    match w.progress with
    | none => w
    | some p =>
      match p.phase with
      | .ingested =>
        { store := w.store.recordFinishedRun now p.runId
            (if p.complete then .complete else .partialRun) p.successfulSources p.accepted
          progress := if p.complete then some { p with phase := .runRecorded } else none
          history := (if p.complete then .completed p.generation else .ended) :: w.history }
      | _ => w
  | .reconcile now minimum =>
    match w.progress with
    | none => w
    | some p =>
      match p.phase with
      | .runRecorded =>
        { w with store := w.store.reconcile now p.generation minimum, progress := none }
      | _ => w
  | .stop => { w with progress := none, history := .stopped :: w.history }
  | .other write => { w with store := w.store.write write }

/-- The statements of a whole refresh whose sources answer in the given order. -/
def refreshSteps (now : Time) (runId : String) (sources : List SubscriptionSource)
    (answers : List (SubscriptionSource × Except String FetchResult)) (newId : ℕ → String)
    (minimum : ℕ) : List (RefreshStep F) :=
  .begin now runId sources ::
    (answers.flatMap fun answer => [.answer now answer.1 answer.2, .resume now]) ++
      [.ingest now newId, .finishRun now, .reconcile now minimum]

/-- What a step can do, and when. -/
inductive Stepped (w : RefreshWorld F) : RefreshStep F → RefreshWorld F → Prop
  | unchanged {a} : Stepped w a w
  | begun {now runId sources} (idle : w.progress = none) :
      Stepped w (.begin now runId sources) {
        store := w.store.beginRefresh now runId sources.length
        progress := some {
          runId := runId
          generation := w.store.nextGeneration
          sourceCount := sources.length
          remaining := sources }
        history := .begun w.store.nextGeneration :: w.history }
  | bodyRecorded {now source body etag lastModified} (p : RefreshProgress)
      (progress : w.progress = some p) (phase : p.phase = .fetching)
      (asked : source ∈ p.remaining) :
      Stepped w (.answer now source (.ok (.body body etag lastModified))) {
        store := w.store.recordSourceSuccess now source.name source.url etag lastModified
        progress := some (p.recordBody source body)
        history := .body p.generation now source.name etag lastModified
          (bodyIdentities lib source body) :: w.history }
  | membersCopied {now source} (p : RefreshProgress) (progress : w.progress = some p)
      (phase : p.phase = .fetching) (asked : source ∈ p.remaining) :
      Stepped w (.answer now source (.ok .notModified)) {
        store := (w.store.copyCachedSourceGeneration source.name p.generation).1
        progress := some (p.recordCopy source
          (w.store.copyCachedSourceGeneration source.name p.generation).2)
        history := .notModified p.generation now source.name
          (confirmedContent w.store source.name w.history) :: w.history }
  | failed {now source error} (p : RefreshProgress) (progress : w.progress = some p)
      (phase : p.phase = .fetching) (asked : source ∈ p.remaining) :
      Stepped w (.answer now source (.error error)) {
        w with
        store := w.store.recordSourceFailure source.name source.url
        progress := some (p.recordError source error) }
  | parsed {now} (p : RefreshProgress) (source : SubscriptionSource) (body : Text)
      (progress : w.progress = some p) (phase : p.phase = .bodyRecorded source body) :
      Stepped w (.resume now) {
        w with
        store := w.store.recordInvalidConfigRejections now source.name
          (parseSubscription lib body source.name).rejected
        progress := some (p.extend (parseSubscription lib body source.name)) }
  | confirmed {now} (p : RefreshProgress) (source : SubscriptionSource) (copied : ℕ)
      (progress : w.progress = some p) (phase : p.phase = .membersCopied source copied) :
      Stepped w (.resume now) {
        w with
        store := w.store.recordSourceSuccess now source.name source.url none none
        progress := some (p.addCopied copied) }
  | ingested {now newId} (p : RefreshProgress) (store : Store F) (inserted : ℕ)
      (progress : w.progress = some p) (phase : p.phase = .fetching) (answered : p.remaining = [])
      (ok : w.store.ingestMany now p.generation p.parsed newId = .ok (store, inserted)) :
      Stepped w (.ingest now newId) {
        store := store
        progress := some { p with phase := .ingested }
        history := .ingested (p.parsed.map (·.configHash)) :: w.history }
  | ingestFailed {now newId} (p : RefreshProgress) (error : String)
      (progress : w.progress = some p) (phase : p.phase = .fetching) (answered : p.remaining = [])
      (failed : w.store.ingestMany now p.generation p.parsed newId = .error error) :
      Stepped w (.ingest now newId) { w with progress := none, history := .stopped :: w.history }
  | runRecorded {now} (p : RefreshProgress) (progress : w.progress = some p)
      (phase : p.phase = .ingested) :
      Stepped w (.finishRun now) {
        store := w.store.recordFinishedRun now p.runId
          (if p.complete then .complete else .partialRun) p.successfulSources p.accepted
        progress := if p.complete then some { p with phase := .runRecorded } else none
        history := (if p.complete then .completed p.generation else .ended) :: w.history }
  | reconciled {now minimum} (p : RefreshProgress) (progress : w.progress = some p)
      (phase : p.phase = .runRecorded) :
      Stepped w (.reconcile now minimum) {
        w with store := w.store.reconcile now p.generation minimum, progress := none }
  | stopped : Stepped w .stop { w with progress := none, history := .stopped :: w.history }
  | other (write : Write F) : Stepped w (.other write) { w with store := w.store.write write }

theorem stepped (w : RefreshWorld F) (a : RefreshStep F) : Stepped lib w a (w.step lib a) := by
  cases a with
  | begin now runId sources =>
    simp only [step]
    split
    · exact .unchanged
    · next h => exact .begun h
  | answer now source result =>
    simp only [step]
    split
    · exact .unchanged
    next p hp =>
    split
    · next hphase =>
      split
      · next hasked =>
        rcases result with error | (⟨body, etag, lastModified⟩ | _)
        · exact .failed p hp hphase hasked
        · exact .bodyRecorded p hp hphase hasked
        · exact .membersCopied p hp hphase hasked
      · exact .unchanged
    · exact .unchanged
  | resume now =>
    simp only [step]
    split
    · exact .unchanged
    next p hp =>
    split
    · next source body hphase => exact .parsed p source body hp hphase
    · next source copied hphase => exact .confirmed p source copied hp hphase
    · exact .unchanged
  | ingest now newId =>
    simp only [step]
    split
    · exact .unchanged
    next p hp =>
    split
    · next hphase hanswered =>
      split
      · next store inserted hok => exact .ingested p store inserted hp hphase hanswered hok
      · next error herr => exact .ingestFailed p error hp hphase hanswered herr
    · exact .unchanged
  | finishRun now =>
    simp only [step]
    split
    · exact .unchanged
    next p hp =>
    split
    · next hphase => exact .runRecorded p hp hphase
    · exact .unchanged
  | reconcile now minimum =>
    simp only [step]
    split
    · exact .unchanged
    next p hp =>
    split
    · next hphase => exact .reconciled p hp hphase
    · exact .unchanged
  | stop => exact .stopped
  | other write => exact .other write

/-- The two statements that end a refresh are `finish_refresh`. -/
theorem finish_eq_finishRefresh {w : RefreshWorld F} {p : RefreshProgress} (now : Time)
    (minimum : ℕ) (progress : w.progress = some p) (phase : p.phase = .ingested) :
    ((w.step lib (.finishRun now)).step lib (.reconcile now minimum)).store =
      (w.store.finishRefresh now p.runId p.generation p.sourceCount p.successfulSources
        p.accepted minimum).1 := by
  have hrun : w.step lib (.finishRun now) = {
      store := w.store.recordFinishedRun now p.runId
        (if p.complete then .complete else .partialRun) p.successfulSources p.accepted
      progress := if p.complete then some { p with phase := .runRecorded } else none
      history := (if p.complete then .completed p.generation else .ended) :: w.history } := by
    simp only [step, progress, phase]
  rw [hrun]
  by_cases hc : p.complete = true
  · have hd : 0 < p.sourceCount ∧ p.successfulSources = p.sourceCount := of_decide_eq_true hc
    simp [step, Store.finishRefresh, hc, hd]
  · have hd : ¬ (0 < p.sourceCount ∧ p.successfulSources = p.sourceCount) :=
      fun h => hc (decide_eq_true h)
    simp [step, Store.finishRefresh, hc, hd]

end RefreshWorld

end ProxyFleet
