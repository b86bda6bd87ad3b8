import ProxyFleet.CachedValidators
import ProxyFleet.MissingGenerations

/-!
# Retirement soundness

A complete refresh retires a row when its counter is high enough, it is old enough and its
publication lease has expired. The counter stands for true absence from the sources.
The age is that of the row and not of its last sight, so twelve hours without a
sight follow only where no answer has contained the row since it was created, or where
the last complete generations span them.
-/
namespace ProxyFleet

variable {F : Type}

/-- The proxies that have arrived and are not ingested. -/
def RefreshProgress.uningested (lib : Libraries) (p : RefreshProgress) : List ParsedProxy :=
  if p.gathering then p.gathered lib else []

/-- An import by hand belongs to no refresh and to the source `manual`. -/
def Write.importsByHand : Write F → Bool
  | .ingestOne _ proxy _ generation => decide (generation = 0 ∧ proxy.source = "manual")
  | _ => false

/-- The step is a statement of a refresh. -/
def RefreshStep.ofRefresh : RefreshStep F → Bool
  | .other _ => false
  | _ => true

/-- What came before the last complete generations is at least twelve hours old. -/
def Spaced (minimum : ℕ) (history : List RefreshEvent) (now : Time) : Prop :=
  ∀ a ∈ answers history, (∀ g ∈ (completedGenerations history).take minimum, a.generation < g) →
    a.time ≤ now - hours 12

/-- No answer has contained the row since it was created. -/
def Unrenewed (history : List RefreshEvent) (row : Node F) : Prop :=
  ∀ a ∈ answers history, row.configHash ∈ a.identities → a.time ≤ row.createdAt

/-- What retirement promises about a row and its past. -/
structure SoundlyRetired (history : List RefreshEvent) (row : Node F) (now : Time)
    (minimum : ℕ) : Prop where
  unseen : Unseen minimum history row.configHash
  unobserved : Unrenewed history row ∨ Spaced minimum history now →
    ∀ a ∈ answers history, row.configHash ∈ a.identities → a.time ≤ now - hours 12
  aged : row.createdAt ≤ now - hours 12
  unleased : row.leaseExpired now = true
  upstream : "manual" ∉ row.sourceSubs

namespace RefreshWorld

/-- The generation that is gathered now or next. -/
def current (w : RefreshWorld F) : ℤ :=
  match w.progress with
  | some p => p.generation
  | none => w.store.nextGeneration

variable [F64 F] (lib : Libraries)

def NothingUningested (w : RefreshWorld F) : Prop :=
  ∀ p ∈ w.progress, (p.uningested lib).isEmpty = true

/-- A `304` confirms no more than it copies, no refresh ends with proxies that are not
ingested, and the rest of the service writes what it writes outside of a refresh. -/
def Orderly (w : RefreshWorld F) : RefreshStep F → Prop
  | .answer _ source (.ok .notModified) =>
    ∀ p ∈ w.progress, ∀ hash ∈ confirmedContent w.store source.name w.history,
      ∃ previous ∈ w.store.previousGeneration source.name p.generation,
        hash ∈ w.store.memberHashes source.name previous
  | .ingest now newId =>
    ∀ p ∈ w.progress, (w.store.ingestMany now p.generation p.parsed newId).isOk = false →
      w.NothingUningested lib
  | .reconcile _ minimum => 3 ≤ minimum
  | .stop => w.NothingUningested lib
  | .other write => write.bystander ∨ write.importsByHand
  | _ => True

instance (w : RefreshWorld F) : Decidable (w.NothingUningested lib) :=
  inferInstanceAs (Decidable (∀ p ∈ w.progress, (p.uningested lib).isEmpty = true))

instance (w : RefreshWorld F) : DecidablePred (w.Orderly lib)
  | .begin _ _ _ => isTrue trivial
  | .answer _ _ (.ok (.body _ _ _)) => isTrue trivial
  | .answer _ source (.ok .notModified) => inferInstanceAs (Decidable (∀ p ∈ w.progress,
      ∀ hash ∈ confirmedContent w.store source.name w.history,
        ∃ previous ∈ w.store.previousGeneration source.name p.generation,
          hash ∈ w.store.memberHashes source.name previous))
  | .answer _ _ (.error _) => isTrue trivial
  | .resume _ => isTrue trivial
  | .ingest now newId => inferInstanceAs (Decidable (∀ p ∈ w.progress,
      (w.store.ingestMany now p.generation p.parsed newId).isOk = false →
        w.NothingUningested lib))
  | .finishRun _ => isTrue trivial
  | .reconcile _ minimum => inferInstanceAs (Decidable (3 ≤ minimum))
  | .stop => inferInstanceAs (Decidable (w.NothingUningested lib))
  | .other _ => inferInstanceAs (Decidable (_ ∨ _))

/-- What a refresh in progress knows about its generation. -/
structure Counting (s : Store F) (history : List RefreshEvent) (p : RefreshProgress) : Prop where
  newest : p.generation + 1 = s.nextGeneration
  seen : ∀ a ∈ answers history, a.generation = p.generation → ∀ hash ∈ a.identities,
    s.Seen p.generation hash ∨ ∃ proxy ∈ p.uningested lib, proxy.configHash = hash
  recorded : p.generation ∈ completedGenerations history ↔ p.phase = .runRecorded
  complete : p.phase = .runRecorded → p.complete = true

/-- No counter is ahead of the generations that missed its row. -/
structure Counted (w : RefreshWorld F) : Prop where
  keyed : w.store.WellKeyed
  nonneg : ∀ row ∈ w.store.nodes, 0 ≤ row.upstreamMissingGenerations
  manual : ∀ row ∈ w.store.nodes, row.likeManual = true → row.upstreamMissingGenerations = 0
  counted : ∀ row ∈ w.store.nodes,
    row.upstreamMissingGenerations ≤ missedBefore w.current w.history row.configHash
  answered : ∀ a ∈ answers w.history, a.generation < w.store.nextGeneration
  completed : ∀ g ∈ completedGenerations w.history, g < w.store.nextGeneration
  sorted : (completedGenerations w.history).Pairwise (· > ·)
  counting : ∀ p, w.progress = some p → Counting lib w.store w.history p

variable {lib} {w : RefreshWorld F} {p : RefreshProgress} {t : Store F}

omit [F64 F] in
theorem current_of_progress (progress : w.progress = some p) : w.current = p.generation := by
  simp [current, progress]

omit [F64 F] in
theorem current_of_idle (progress : w.progress = none) : w.current = w.store.nextGeneration := by
  simp [current, progress]

omit [F64 F] in
/-- Tracked rows keep what their counters stand for. -/
theorem Counted.rows (h : Counted lib w) {g : ℤ} (tracks : Store.Tracks g w.store t) :
    ∀ row ∈ t.nodes, 0 ≤ row.upstreamMissingGenerations ∧
      (row.likeManual = true → row.upstreamMissingGenerations = 0) ∧
        row.upstreamMissingGenerations ≤ missedBefore w.current w.history row.configHash := by
  intro row' hr'
  rcases tracks row' hr' with ⟨hzero, -⟩ | ⟨row, hr, hhash, hcount, -, hmanual⟩
  · rw [hzero]
    exact ⟨le_rfl, fun _ => rfl, Int.natCast_nonneg _⟩
  · rw [hcount, hmanual, hhash]
    exact ⟨h.nonneg row hr, h.manual row hr, h.counted row hr⟩

omit [F64 F] in
/-- A write of the rest of the service. -/
theorem Counted.other (h : Counted lib w) (tracks : ∀ g, Store.Tracks g w.store t)
    (keyed : t.WellKeyed) (next : t.nextGeneration = w.store.nextGeneration) :
    Counted lib { w with store := t } := by
  have hcurrent : ({ w with store := t } : RefreshWorld F).current = w.current := by
    unfold current
    split <;> simp_all
  have hrows := h.rows (tracks w.current)
  refine ⟨keyed, fun row hr => (hrows row hr).1, fun row hr => (hrows row hr).2.1, ?_,
    fun a ha => (h.answered a ha).trans_eq next.symm,
    fun g hg => (h.completed g hg).trans_eq next.symm, h.sorted, ?_⟩
  · intro row hr
    rw [hcurrent]
    exact (hrows row hr).2.2
  · intro p progress
    have hp := h.counting p progress
    refine ⟨hp.newest.trans next.symm, ?_, hp.recorded, hp.complete⟩
    intro a ha hg hash hmem
    exact (hp.seen a ha hg hash hmem).imp_left fun hs => hs.tracks (tracks p.generation)

omit [F64 F] in
/-- A statement of a refresh that has not recorded its run. -/
theorem Counted.during (h : Counted lib w) (progress : w.progress = some p)
    (p' : RefreshProgress) (unrecorded : p.phase ≠ .runRecorded)
    (tracks : Store.Tracks p.generation w.store t)
    (keyed : t.WellKeyed) (next : t.nextGeneration = w.store.nextGeneration)
    (generation : p'.generation = p.generation) (unrecorded' : p'.phase ≠ .runRecorded)
    {history : List RefreshEvent}
    (completed : completedGenerations history = completedGenerations w.history)
    (answered : ∀ a ∈ answers history, a ∈ answers w.history ∨ a.generation = p.generation)
    (seen : ∀ a ∈ answers history, a.generation = p.generation → ∀ hash ∈ a.identities,
      t.Seen p.generation hash ∨ ∃ proxy ∈ p'.uningested lib, proxy.configHash = hash) :
    Counted lib { store := t, progress := some p', history := history : RefreshWorld F } := by
  have hp := h.counting p progress
  have hrows := h.rows tracks
  have hnext : p.generation < w.store.nextGeneration := by
    have := hp.newest
    omega
  have hmissed : ∀ hash, missedBefore p.generation w.history hash ≤
      missedBefore p.generation history hash := by
    intro hash
    unfold missedBefore
    rw [completed]
    apply List.countP_mono_left
    intro g _ hmissed
    refine decide_eq_true ⟨(of_decide_eq_true hmissed).1, fun a ha hmem hlt => ?_⟩
    refine (of_decide_eq_true hmissed).2 a ?_ hmem hlt
    exact (answered a ha).resolve_right (ne_of_lt hlt)
  refine ⟨keyed, fun row hr => (hrows row hr).1, fun row hr => (hrows row hr).2.1, ?_, ?_, ?_,
    ?_, ?_⟩
  · intro row hr
    have hle := (hrows row hr).2.2
    rw [current_of_progress progress] at hle
    rw [current_of_progress (p := p') rfl, generation]
    exact hle.trans (Int.ofNat_le.mpr (hmissed row.configHash))
  · intro a ha
    refine lt_of_lt_of_eq ?_ next.symm
    rcases answered a ha with hold | hnew
    · exact h.answered a hold
    · omega
  · intro g hg
    rw [completed] at hg
    exact (h.completed g hg).trans_eq next.symm
  · rw [completed]
    exact h.sorted
  · intro q hq
    obtain rfl := Option.some.inj hq
    rw [← generation] at seen
    refine ⟨?_, seen, ?_, fun hrec => absurd hrec unrecorded'⟩
    · rw [generation, next, hp.newest]
    · rw [completed, generation, hp.recorded]
      exact iff_of_false unrecorded unrecorded'

omit [F64 F] in
theorem Counted.begun (h : Counted lib w) (idle : w.progress = none) (now : Time)
    (runId : String) (sources : List SubscriptionSource) :
    Counted lib {
      store := w.store.beginRefresh now runId sources.length
      progress := some {
        runId := runId
        generation := w.store.nextGeneration
        sourceCount := sources.length
        remaining := sources }
      history := .begun w.store.nextGeneration :: w.history : RefreshWorld F } := by
  have hnext := Store.nextGeneration_beginRefresh w.store now runId sources.length
  refine ⟨⟨h.keyed.ids, h.keyed.hashes⟩, h.nonneg, h.manual, ?_, ?_, ?_, h.sorted, ?_⟩
  · intro row hr
    have hle := h.counted row hr
    rw [current_of_idle idle] at hle
    exact hle
  · intro a ha
    have hlt := h.answered a ha
    refine lt_of_lt_of_eq ?_ hnext.symm
    omega
  · intro g hg
    have hlt := h.completed g hg
    refine lt_of_lt_of_eq ?_ hnext.symm
    omega
  · intro p hp
    obtain rfl := Option.some.inj hp
    refine ⟨hnext.symm, ?_, iff_of_false ?_ (fun hphase => by cases hphase),
      fun hphase => (by cases hphase)⟩
    · intro a ha hg
      exact absurd hg (ne_of_lt (h.answered a ha))
    · intro hmem
      exact absurd (h.completed _ hmem) (lt_irrefl _)

omit [F64 F] in
/-- At the end of a generation that is ingested, its answers count as well. -/
theorem Counted.closing (h : Counted lib w) (progress : w.progress = some p)
    (nothing : (p.uningested lib).isEmpty = true) {row : Node F} (hr : row ∈ w.store.nodes) :
    row.upstreamMissingGenerations ≤
        missedBefore w.store.nextGeneration w.history row.configHash ∧
      (p.phase = .runRecorded → row.missedBy p.generation = true →
        row.upstreamMissingGenerations + 1 ≤
          missedBefore w.store.nextGeneration w.history row.configHash) := by
  have hp := h.counting p progress
  have hle := h.counted row hr
  rw [current_of_progress progress] at hle
  rw [← hp.newest]
  by_cases hcontained : ∃ a ∈ answers w.history, a.generation = p.generation ∧
      row.configHash ∈ a.identities
  · obtain ⟨a, ha, hg, hmem⟩ := hcontained
    have hseen : w.store.Seen p.generation row.configHash := by
      refine (hp.seen a ha hg _ hmem).resolve_right ?_
      rintro ⟨proxy, hproxy, -⟩
      rw [List.isEmpty_iff.mp nothing] at hproxy
      cases hproxy
    obtain ⟨hzero, hnot⟩ := hseen row hr rfl
    rw [hzero, hnot]
    exact ⟨Int.natCast_nonneg _, fun _ hmissed => by cases hmissed⟩
  · have habsent : ∀ a ∈ answers w.history, a.generation = p.generation →
        row.configHash ∉ a.identities := fun a ha hg hmem => hcontained ⟨a, ha, hg, hmem⟩
    have hsucc := missedBefore_succ habsent
    constructor
    · omega
    · intro hphase _
      have hpos := List.count_pos_iff.mpr (hp.recorded.mpr hphase)
      omega

omit [F64 F] in
/-- A refresh that ends without a reconciliation. -/
theorem Counted.closed (h : Counted lib w) (progress : w.progress = some p)
    (nothing : (p.uningested lib).isEmpty = true) (nodes : t.nodes = w.store.nodes)
    (next : t.nextGeneration = w.store.nextGeneration) {event : RefreshEvent}
    (ends : event = .ended ∨ event = .stopped) :
    Counted lib {
      store := t, progress := none, history := event :: w.history : RefreshWorld F } := by
  have hanswers : answers (event :: w.history) = answers w.history := by
    rcases ends with rfl | rfl <;> rfl
  have hcompleted : completedGenerations (event :: w.history) = completedGenerations w.history := by
    rcases ends with rfl | rfl <;> rfl
  have hmissed : ∀ bound hash, missedBefore bound (event :: w.history) hash =
      missedBefore bound w.history hash := by
    intro bound hash
    rcases ends with rfl | rfl <;> rfl
  refine ⟨h.keyed.of_nodes_eq nodes, ?_, ?_, ?_, ?_, ?_, ?_, fun q hq => by cases hq⟩
  · exact fun row hr => h.nonneg row (nodes ▸ hr)
  · exact fun row hr => h.manual row (nodes ▸ hr)
  · intro row hr
    have hr : row ∈ w.store.nodes := nodes ▸ hr
    have hclosing := (h.closing progress nothing hr).1
    show row.upstreamMissingGenerations ≤
      (missedBefore t.nextGeneration (event :: w.history) row.configHash : ℤ)
    rw [hmissed, next]
    exact hclosing
  · rw [hanswers]
    exact fun a ha => (h.answered a ha).trans_eq next.symm
  · rw [hcompleted]
    exact fun g hg => (h.completed g hg).trans_eq next.symm
  · rw [hcompleted]
    exact h.sorted

omit [F64 F] in
/-- The record of a complete run adds its generation to the complete ones. -/
theorem Counted.recorded (h : Counted lib w) (progress : w.progress = some p)
    (phase : p.phase = .ingested) (complete : p.complete = true) (nodes : t.nodes = w.store.nodes)
    (next : t.nextGeneration = w.store.nextGeneration) :
    Counted lib {
      store := t
      progress := some { p with phase := .runRecorded }
      history := .completed p.generation :: w.history : RefreshWorld F } := by
  have hp := h.counting p progress
  have hnew : p.generation ∉ completedGenerations w.history := by
    intro hmem
    have hphase := hp.recorded.mp hmem
    rw [phase] at hphase
    cases hphase
  have hlt : p.generation < w.store.nextGeneration := by
    have := hp.newest
    omega
  have hmissed : ∀ hash, missedBefore p.generation (.completed p.generation :: w.history) hash =
      missedBefore p.generation w.history hash := by
    intro hash
    have hnot : ¬ Missed p.generation (.completed p.generation :: w.history) hash p.generation :=
      fun hm => lt_irrefl _ hm.1
    unfold missedBefore
    rw [completedGenerations, List.countP_cons_of_neg (by simpa using hnot)]
    rfl
  refine ⟨h.keyed.of_nodes_eq nodes, ?_, ?_, ?_, ?_, ?_, ?_, ?_⟩
  · exact fun row hr => h.nonneg row (nodes ▸ hr)
  · exact fun row hr => h.manual row (nodes ▸ hr)
  · intro row hr
    have hle := h.counted row (nodes ▸ hr)
    rw [current_of_progress progress] at hle
    show row.upstreamMissingGenerations ≤
      (missedBefore p.generation (.completed p.generation :: w.history) row.configHash : ℤ)
    rw [hmissed]
    exact hle
  · exact fun a ha => (h.answered a ha).trans_eq next.symm
  · intro g hg
    rcases List.mem_cons.mp hg with rfl | hg
    · exact hlt.trans_eq next.symm
    · exact (h.completed g hg).trans_eq next.symm
  · refine List.pairwise_cons.mpr ⟨fun g hg => ?_, h.sorted⟩
    have hle := h.completed g hg
    have hne : g ≠ p.generation := fun heq => hnew (heq ▸ hg)
    have hnewest := hp.newest
    show g < p.generation
    omega
  · intro q hq
    obtain rfl := Option.some.inj hq
    refine ⟨hp.newest.trans next.symm, ?_, iff_of_true (List.mem_cons_self) rfl, fun _ => complete⟩
    intro a ha hg hash hmem
    refine .inl ?_
    have hseen : w.store.Seen p.generation hash := by
      refine (hp.seen a ha hg hash hmem).resolve_right ?_
      rintro ⟨proxy, hproxy, -⟩
      simp [RefreshProgress.uningested, RefreshProgress.gathering, phase] at hproxy
    exact hseen.tracks (Store.Tracks.of_nodes nodes)

/-- A reconciliation raises the counters of the rows that its generation missed. -/
theorem Counted.reconciled (h : Counted lib w) (progress : w.progress = some p)
    (phase : p.phase = .runRecorded) (now : Time) (minimum : ℕ) :
    Counted lib
      { w with store := w.store.reconcile now p.generation minimum, progress := none } := by
  have hk := h.keyed.write (.reconcile now p.generation minimum)
  have nothing : (p.uningested lib).isEmpty = true := by
    simp [RefreshProgress.uningested, RefreshProgress.gathering, phase]
  have hrow : ∀ row' ∈ (w.store.reconcile now p.generation minimum).nodes,
      ∃ row ∈ w.store.nodes, row'.configHash = row.configHash ∧ row'.likeManual = row.likeManual ∧
        (row'.upstreamMissingGenerations = row.upstreamMissingGenerations ∨
          row.missedBy p.generation = true ∧
            row'.upstreamMissingGenerations = row.upstreamMissingGenerations + 1) := by
    intro row' hr'
    have hw : row' ∈ (w.store.write (.reconcile now p.generation minimum)).nodes := hr'
    rcases row_of_write h.keyed hw with inserted | ⟨row, hr, hstep⟩
    · cases inserted
    · refine ⟨row, hr, hstep.configHash_eq, ?_⟩
      cases hstep with
      | missed _ unseen | missedRetired _ unseen => exact ⟨rfl, .inr ⟨unseen, rfl⟩⟩
      | kept | retired | port | metadata => exact ⟨rfl, .inl rfl⟩
  refine ⟨hk, ?_, ?_, ?_, h.answered, h.completed, h.sorted, fun q hq => by cases hq⟩
  · intro row' hr'
    obtain ⟨row, hr, -, -, hcount⟩ := hrow row' hr'
    have hnonneg := h.nonneg row hr
    omega
  · intro row' hr' hmanual
    obtain ⟨row, hr, -, hlike, hcount | ⟨hmissed, -⟩⟩ := hrow row' hr'
    · rw [hcount]
      exact h.manual row hr (hlike ▸ hmanual)
    · simp [Node.missedBy, ← hlike, hmanual] at hmissed
  · intro row' hr'
    obtain ⟨row, hr, hhash, -, hcount⟩ := hrow row' hr'
    have hclosing := h.closing progress nothing hr
    show row'.upstreamMissingGenerations ≤
      (missedBefore w.store.nextGeneration w.history row'.configHash : ℤ)
    rw [hhash]
    rcases hcount with hcount | ⟨hmissed, hcount⟩
    · exact hcount ▸ hclosing.1
    · exact hcount ▸ hclosing.2 phase hmissed

omit [F64 F] in
/-- A statement that changes no row and gathers nothing. -/
theorem Counted.of_nodes (h : Counted lib w) (progress : w.progress = some p)
    (p' : RefreshProgress) (unrecorded : p.phase ≠ .runRecorded)
    (nodes : t.nodes = w.store.nodes) (next : t.nextGeneration = w.store.nextGeneration)
    (generation : p'.generation = p.generation) (unrecorded' : p'.phase ≠ .runRecorded)
    (uningested : p'.uningested lib = p.uningested lib) :
    Counted lib { store := t, progress := some p', history := w.history : RefreshWorld F } := by
  have htracks : Store.Tracks p.generation w.store t := Store.Tracks.of_nodes nodes
  refine h.during progress p' unrecorded htracks (h.keyed.of_nodes_eq nodes) next generation
    unrecorded' rfl (fun _ => .inl) ?_
  intro a ha hg hash hmem
  rw [uningested]
  exact ((h.counting p progress).seen a ha hg hash hmem).imp_left fun hs => hs.tracks htracks

omit [F64 F] in
/-- A body counts as seen as long as its proxies wait for the ingest. -/
theorem Counted.bodyRecorded (h : Counted lib w) (progress : w.progress = some p)
    (phase : p.phase = .fetching) (now : Time) (source : SubscriptionSource) (body : Text)
    (etag lastModified : Option String) :
    Counted lib {
      store := w.store.recordSourceSuccess now source.name source.url etag lastModified
      progress := some (p.recordBody source body)
      history := .body p.generation now source.name etag lastModified
        (bodyIdentities lib source body) :: w.history : RefreshWorld F } := by
  have hnodes := Store.recordSourceSuccess_nodes w.store now source.name source.url etag
    lastModified
  refine h.during progress (p.recordBody source body) (by simp [phase])
    (Store.Tracks.of_nodes hnodes) (h.keyed.of_nodes_eq hnodes)
    (nextGeneration_of_runs (Store.recordSourceSuccess_upstream _ _ _ _ _ _).2) rfl
    (fun hphase => by cases hphase) rfl ?_ ?_
  · intro a ha
    rcases List.mem_cons.mp ha with rfl | ha
    · exact .inr rfl
    · exact .inl ha
  · intro a ha hg hash hmem
    rcases List.mem_cons.mp ha with rfl | ha
    · obtain ⟨proxy, hproxy, rfl⟩ := List.mem_map.mp hmem
      refine .inr ⟨proxy, ?_, rfl⟩
      simp [RefreshProgress.uningested, RefreshProgress.gathering, RefreshProgress.gathered,
        RefreshProgress.recordBody, hproxy]
    · refine ((h.counting p progress).seen a ha hg hash hmem).imp
        (fun hs => hs.tracks (Store.Tracks.of_nodes hnodes)) ?_
      rintro ⟨proxy, hproxy, rfl⟩
      refine ⟨proxy, ?_, rfl⟩
      simp only [RefreshProgress.uningested, RefreshProgress.gathering, RefreshProgress.gathered,
        phase, if_true, List.append_nil] at hproxy
      simp [RefreshProgress.uningested, RefreshProgress.gathering, RefreshProgress.gathered,
        RefreshProgress.recordBody, hproxy]

/-- So does what a `304` copies. -/
theorem Counted.membersCopied (h : Counted lib w) (progress : w.progress = some p)
    (phase : p.phase = .fetching) {now : Time} {source : SubscriptionSource}
    (orderly : w.Orderly lib (.answer now source (.ok .notModified))) :
    Counted lib {
      store := (w.store.copyCachedSourceGeneration source.name p.generation).1
      progress := some (p.recordCopy source
        (w.store.copyCachedSourceGeneration source.name p.generation).2)
      history := .notModified p.generation now source.name
        (confirmedContent w.store source.name w.history) :: w.history : RefreshWorld F } := by
  obtain ⟨htracks, hseen⟩ := Store.tracks_copy h.keyed source.name (g := p.generation)
  refine h.during progress (p.recordCopy source _) (by simp [phase]) htracks
    (h.keyed.write (.copyCachedSourceGeneration source.name p.generation))
    (nextGeneration_of_runs
      (Store.copyCachedSourceGeneration_runs w.store source.name p.generation)) rfl
    (fun hphase => by cases hphase) rfl ?_ ?_
  · intro a ha
    rcases List.mem_cons.mp ha with rfl | ha
    · exact .inr rfl
    · exact .inl ha
  · intro a ha hg hash hmem
    rcases List.mem_cons.mp ha with rfl | ha
    · obtain ⟨previous, hprevious, hcopied⟩ := orderly p progress hash hmem
      exact .inl (hseen previous hprevious hash hcopied)
    · refine ((h.counting p progress).seen a ha hg hash hmem).imp (fun hs => hs.tracks htracks) ?_
      simp [RefreshProgress.uningested, RefreshProgress.gathering, RefreshProgress.gathered,
        RefreshProgress.recordCopy, phase]

/-- The ingest makes all that was gathered seen. -/
theorem Counted.ingested (h : Counted lib w) (progress : w.progress = some p)
    (phase : p.phase = .fetching) {now : Time} {newId : ℕ → String} {inserted : ℕ}
    (ok : w.store.ingestMany now p.generation p.parsed newId = .ok (t, inserted)) :
    Counted lib {
      store := t
      progress := some { p with phase := .ingested }
      history := .ingested (p.parsed.map (·.configHash)) :: w.history : RefreshWorld F } := by
  obtain ⟨htracks, hseen⟩ := Store.tracks_ingestMany h.keyed ok
  refine h.during progress { p with phase := .ingested } (by simp [phase]) htracks
    (h.keyed.ingestMany ok) (nextGeneration_of_runs (Store.members_ingestMany ok).2.2) rfl
    (fun hphase => by cases hphase) rfl (fun _ => .inl) ?_
  intro a ha hg hash hmem
  rcases (h.counting p progress).seen a ha hg hash hmem with hs | ⟨proxy, hproxy, rfl⟩
  · exact .inl (hs.tracks htracks)
  · simp only [RefreshProgress.uningested, RefreshProgress.gathering, RefreshProgress.gathered,
      phase, if_true, List.append_nil] at hproxy
    exact .inl (hseen proxy hproxy)

/-- An import by hand counts nothing. -/
theorem Counted.importedByHand (h : Counted lib w) {write : Write F}
    (byHand : write.importsByHand = true) :
    Counted lib { w with store := w.store.write write } := by
  cases write with
  | ingestOne now proxy newId generation =>
    obtain ⟨rfl, hmanual⟩ := of_decide_eq_true byHand
    rw [Store.write]
    cases hone : w.store.ingestOne now proxy newId 0 with
    | error e => exact h
    | ok t =>
      rw [Store.commit_ok]
      exact h.other (fun g => (Store.tracks_ingestOne h.keyed hone (.inr hmanual)).1)
        (h.keyed.ingestOne hone) (nextGeneration_of_runs (Store.ingestOne_upstream hone).2.2)
  | _ => cases byHand

/-- Every orderly step keeps the counters behind the history. -/
theorem Counted.step (h : Counted lib w) {a : RefreshStep F} (orderly : w.Orderly lib a) :
    Counted lib (w.step lib a) := by
  have hstep := stepped lib w a
  generalize w.step lib a = w' at hstep ⊢
  cases hstep with
  | unchanged => exact h
  | begun idle => exact h.begun idle _ _ _
  | bodyRecorded p progress phase asked => exact h.bodyRecorded progress phase _ _ _ _ _
  | membersCopied p progress phase asked => exact h.membersCopied progress phase orderly
  | @failed now source error p progress phase asked =>
    exact h.of_nodes progress (p.recordError source error) (by simp [phase])
      (Store.recordSourceFailure_nodes _ _ _) (SameUpstream.recordSourceFailure _ _ _).next rfl
      (by simp [RefreshProgress.recordError, phase]) rfl
  | @parsed now p source body progress phase =>
    obtain ⟨events, hevents⟩ := w.store.exists_recordInvalidConfigRejections now source.name
      (parseSubscription lib body source.name).rejected
    rw [hevents]
    refine h.of_nodes progress (p.extend _) (by simp [phase]) rfl rfl rfl
      (fun hphase => by cases hphase) ?_
    simp [RefreshProgress.uningested, RefreshProgress.gathering, RefreshProgress.gathered,
      RefreshProgress.extend, phase]
  | @confirmed now p source copied progress phase =>
    refine h.of_nodes progress (p.addCopied copied) (by simp [phase])
      (Store.recordSourceSuccess_nodes _ _ _ _ _ _) (SameUpstream.confirmSource _ _ _ _).next rfl
      (fun hphase => by cases hphase) ?_
    simp [RefreshProgress.uningested, RefreshProgress.gathering, RefreshProgress.gathered,
      RefreshProgress.addCopied, phase]
  | ingested p store inserted progress phase answered ok => exact h.ingested progress phase ok
  | ingestFailed p error progress phase answered failed =>
    have hnothing := orderly p progress (by rw [failed]; rfl)
    exact h.closed progress (hnothing p progress) rfl rfl (.inr rfl)
  | @runRecorded now p progress phase =>
    have hnext := Store.nextGeneration_recordFinishedRun w.store now p.runId
      (if p.complete then .complete else .partialRun) p.successfulSources p.accepted
    by_cases hc : p.complete = true
    · simp only [if_pos hc] at hnext ⊢
      exact h.recorded progress phase hc rfl hnext
    · simp only [if_neg hc] at hnext ⊢
      refine h.closed progress ?_ ?_ hnext (.inl rfl)
      · simp [RefreshProgress.uningested, RefreshProgress.gathering, phase]
      · rfl
  | reconciled p progress phase => exact h.reconciled progress phase _ _
  | stopped =>
    cases hprogress : w.progress with
    | some p => exact h.closed hprogress (orderly p hprogress) rfl rfl (.inr rfl)
    | none =>
      refine ⟨h.keyed, h.nonneg, h.manual, ?_, h.answered, h.completed, h.sorted,
        fun q hq => by cases hq⟩
      intro row hr
      have hle := h.counted row hr
      rw [current_of_idle hprogress] at hle
      exact hle
  | other write =>
    rcases orderly with bystander | byHand
    · have hspares : write.sparesUpstream = true := by
        cases write <;> first | rfl | cases bystander
      exact h.other (fun g => Store.tracks_bystander h.keyed bystander) (h.keyed.write write)
        (SameUpstream.write w.store hspares).next
    · exact h.importedByHand byHand

omit [F64 F] in
theorem counted_empty : Counted lib ({} : RefreshWorld F) where
  keyed := Store.wellKeyed_empty
  nonneg row hr := by cases hr
  manual row hr := by cases hr
  counted row hr := by cases hr
  answered a ha := by cases ha
  completed g hg := by cases hg
  sorted := List.Pairwise.nil
  counting p hp := by cases hp

/-- Only a reconciliation raises counters or retires rows, among the statements of a refresh. -/
theorem Counted.quiet (h : Counted lib w) {a : RefreshStep F} (ofRefresh : a.ofRefresh = true) :
    Store.Quiet w.store (w.step lib a).store ∨ ∃ now minimum p, a = .reconcile now minimum ∧
      w.progress = some p ∧ p.phase = .runRecorded ∧ p.complete = true := by
  have hstep := stepped lib w a
  generalize w.step lib a = w' at hstep ⊢
  cases hstep with
  | unchanged => exact .inl (Store.Quiet.of_nodes rfl)
  | begun => exact .inl (Store.Quiet.of_nodes rfl)
  | bodyRecorded => exact .inl (Store.Quiet.of_nodes (Store.recordSourceSuccess_nodes _ _ _ _ _ _))
  | membersCopied => exact .inl (Store.quiet_copy h.keyed _)
  | failed => exact .inl (Store.Quiet.of_nodes (Store.recordSourceFailure_nodes _ _ _))
  | @parsed now p source body =>
    obtain ⟨events, hevents⟩ := w.store.exists_recordInvalidConfigRejections now source.name
      (parseSubscription lib body source.name).rejected
    rw [hevents]
    exact .inl (Store.Quiet.of_nodes rfl)
  | confirmed => exact .inl (Store.Quiet.of_nodes (Store.recordSourceSuccess_nodes _ _ _ _ _ _))
  | ingested p store inserted progress phase answered ok =>
    exact .inl (Store.quiet_ingestMany h.keyed ok)
  | ingestFailed => exact .inl (Store.Quiet.of_nodes rfl)
  | runRecorded => exact .inl (Store.Quiet.of_nodes rfl)
  | reconciled p progress phase =>
    exact .inr ⟨_, _, p, rfl, progress, phase, (h.counting p progress).complete phase⟩
  | stopped => exact .inl (Store.Quiet.of_nodes rfl)
  | other => cases ofRefresh

omit [F64 F] in
theorem retirable_iff {row : Node F} {now : Time} {minimum : ℕ} :
    row.retirable now minimum = true ↔ row.lifecycleState ≠ .invalid ∧
      row.lifecycleState ≠ .retired ∧ (minimum : ℤ) ≤ row.upstreamMissingGenerations ∧
        row.createdAt ≤ now - hours 12 ∧ row.leaseExpired now = true := by
  simp [Node.retirable, and_assoc]

/-- A row that a reconciliation retires has been absent and is retired soundly. -/
theorem Counted.soundlyRetired (h : Counted lib w) (progress : w.progress = some p)
    (phase : p.phase = .runRecorded) {now : Time} {minimum : ℕ} (enough : 3 ≤ minimum)
    {row row' : Node F} (hr : row ∈ w.store.nodes)
    (hr' : row' ∈ (w.store.reconcile now p.generation minimum).nodes) (own : row'.id = row.id)
    (live : row.lifecycleState ≠ .retired) (retired : row'.lifecycleState = .retired) :
    SoundlyRetired w.history row now minimum := by
  have hafter := h.reconciled progress phase now minimum
  have hw : row' ∈ (w.store.write (.reconcile now p.generation minimum)).nodes := hr'
  have hout : row'.configHash = row.configHash ∧ row'.sourceSubs = row.sourceSubs ∧
      (minimum : ℤ) ≤ row'.upstreamMissingGenerations ∧ row.createdAt ≤ now - hours 12 ∧
        row.leaseExpired now = true := by
    rcases row_of_write h.keyed hw with inserted | ⟨other, ho, hstep⟩
    · cases inserted
    · obtain rfl := RowUpdates.eq_of_key_eq h.keyed.ids ho hr (hstep.id_eq.symm.trans own)
      cases hstep with
      | kept | port | metadata => exact absurd retired live
      | missed => exact absurd retired live
      | missedRetired _ _ out => exact ⟨rfl, rfl, (retirable_iff.mp out).2.2⟩
      | retired _ _ out => exact ⟨rfl, rfl, (retirable_iff.mp out).2.2⟩
  obtain ⟨hhash, hsources, hcount, haged, hlease⟩ := hout
  have hunseen : Unseen minimum w.history row.configHash := by
    refine unseen_of_le_missedBefore h.sorted h.completed h.answered ?_
    have hle := hafter.counted row' hr'
    rw [hhash] at hle
    exact Int.ofNat_le.mp (hcount.trans hle)
  refine ⟨hunseen, ?_, haged, hlease, ?_⟩
  · rintro (unrenewed | spaced) a ha hmem
    · exact (unrenewed a ha hmem).trans haged
    · exact spaced a ha fun g hg => hunseen.2 g hg a ha hmem
  · intro hmanual
    have hzero := hafter.manual row' hr' (likeManual_of_mem (hsources ▸ hmanual))
    omega

/-- In orderly runs a refresh raises counters and retires rows only where it reconciles a
complete generation, and it retires only what was absent from its sources. -/
theorem retirement_sound {steps : List (RefreshStep F)}
    (orderly : ObservedRuns.Admitted (step lib) (Orderly lib) {} steps) {a : RefreshStep F}
    (next : (ObservedRuns.run (step lib) {} steps).Orderly lib a) :
    ∀ row ∈ (ObservedRuns.run (step lib) {} steps).store.nodes,
      ∀ row' ∈ ((ObservedRuns.run (step lib) {} steps).step lib a).store.nodes, row'.id = row.id →
        (a.ofRefresh = true → row.upstreamMissingGenerations < row'.upstreamMissingGenerations ∨
            row.lifecycleState ≠ .retired ∧ row'.lifecycleState = .retired →
          ∃ now minimum p, a = .reconcile now minimum ∧
            (ObservedRuns.run (step lib) {} steps).progress = some p ∧
              p.phase = .runRecorded ∧ p.complete = true) ∧
        ∀ now minimum, a = .reconcile now minimum → row.lifecycleState ≠ .retired →
          row'.lifecycleState = .retired →
            SoundlyRetired (ObservedRuns.run (step lib) {} steps).history row now minimum := by
  have hstep : ∀ (w : RefreshWorld F) a, w.Orderly lib a → Counted lib w →
      Counted lib (w.step lib a) := fun w a horderly hw => hw.step horderly
  have hrun := ObservedRuns.run_invariant hstep counted_empty orderly
  generalize ObservedRuns.run (step lib) {} steps = w at hrun next ⊢
  intro row hr row' hr' own
  constructor
  · intro ofRefresh hchange
    refine (hrun.quiet ofRefresh).resolve_left fun hquiet => ?_
    obtain ⟨hle, hretired⟩ := hquiet.row hrun.keyed hr hr' own (hrun.nonneg row hr)
    rcases hchange with hlt | ⟨hlive, hout⟩
    · omega
    · exact hlive (hretired hout)
  · rintro now minimum rfl hlive hout
    rcases hrun.quiet (a := .reconcile now minimum) rfl with
      hquiet | ⟨_, _, p, heq, hprogress, hphase, -⟩
    · exact absurd ((hquiet.row hrun.keyed hr hr' own (hrun.nonneg row hr)).2 hout) hlive
    · have hw : (w.step lib (.reconcile now minimum)).store =
          w.store.reconcile now p.generation minimum := by
        simp only [step, hprogress, hphase]
      exact hrun.soundlyRetired hprogress hphase next hr (hw ▸ hr') own hlive hout

/-- Where the validators describe ingested content, a `304` confirms what it copies. -/
theorem Validated.orderly (h : Validated lib w) (progress : w.progress = some p)
    {source : SubscriptionSource} (asked : source ∈ p.remaining) (now : Time) :
    w.Orderly lib (.answer now source (.ok .notModified)) := by
  rintro q hq hash hmem
  obtain rfl := Option.some.inj (progress.symm.trans hq)
  have hr := h.refreshing p progress
  have hasked : source.name ∈ p.remaining.map (·.name) := List.mem_map_of_mem asked
  have hnewest : ∀ v, (w.store.cachedValidator source.name v).isSome = true →
      hash ∈ (carrier source.name v w.history).getD [] → w.store.Newest source.name hash := by
    intro v hv hcarried
    obtain ⟨identities, hcarrier, hnew, -⟩ :=
      h.settled source.name (fun hn => hr.apart _ hn hasked) v hv
    rw [hcarrier] at hcarried
    exact (hnew hash).mpr hcarried
  have hsettled : w.store.Newest source.name hash := by
    unfold confirmedContent at hmem
    split at hmem
    · next hetag => exact hnewest .etag (by rw [hetag]; rfl) hmem
    · next hdate => exact hnewest .lastModified (by rw [hdate]; rfl) hmem
    · cases hmem
  obtain ⟨g, hg, hmax⟩ := hsettled
  have holder : ∀ m ∈ w.store.members, m.sourceName = source.name →
      m.generation < p.generation := by
    intro m hm hname
    have hlt := h.bounded m hm
    have hnew := hr.newest
    have hne : m.generation ≠ p.generation := fun heq => (hr.untouched m hm heq).1 (hname ▸ hasked)
    omega
  refine ⟨g, ?_, Store.mem_memberHashes.mpr hg⟩
  exact Store.previousGeneration_eq_some.mpr
    ⟨⟨hash, hg⟩, holder _ hg rfl, fun m hm hname _ => hmax m hm hname⟩

/-- A refresh of the sample source, complete. -/
def sampleRefresh (now : Time) (runId : String) (body : FetchResult) : List (RefreshStep ℚ) :=
  refreshSteps now runId [sampleSource] [(sampleSource, .ok body)] (fun _ => "node") 3

/-- The source loses its proxy, and a refresh follows every hour of half a day. -/
def hourlyRefreshes : List (RefreshStep ℚ) :=
  sampleRefresh 0 "first" sampleBody ++
    ((List.range 12).flatMap fun i =>
      sampleRefresh (hours (i + 1)) ("later " ++ toString i) (.body [] none none)).dropLast

/-- The counter passes three after three hours, and the age of the row keeps it for twelve. -/
theorem retirement_sound_hourlyRefreshes :
    ∃ row ∈ (ObservedRuns.run (step sampleLibraries) {} hourlyRefreshes).store.nodes,
      Unseen 3 (ObservedRuns.run (step sampleLibraries) {} hourlyRefreshes).history
        row.configHash ∧ "manual" ∉ row.sourceSubs ∧
      ∀ a ∈ answers (ObservedRuns.run (step sampleLibraries) {} hourlyRefreshes).history,
        row.configHash ∈ a.identities → a.time ≤ hours 12 - hours 12 := by
  have orderly : ObservedRuns.Admitted (step sampleLibraries) (Orderly sampleLibraries) {}
      hourlyRefreshes := by decide +kernel
  have next : (ObservedRuns.run (step sampleLibraries) {} hourlyRefreshes).Orderly
      sampleLibraries (.reconcile (hours 12) 3) := by decide +kernel
  have hretired : ∃ row ∈ (ObservedRuns.run (step sampleLibraries) {} hourlyRefreshes).store.nodes,
      ∃ row' ∈ ((ObservedRuns.run (step sampleLibraries) {} hourlyRefreshes).step sampleLibraries
        (.reconcile (hours 12) 3)).store.nodes, row'.id = row.id ∧
          row.lifecycleState ≠ .retired ∧ row'.lifecycleState = .retired ∧
            ∀ a ∈ answers (ObservedRuns.run (step sampleLibraries) {} hourlyRefreshes).history,
              row.configHash ∈ a.identities → a.time ≤ row.createdAt := by decide +kernel
  obtain ⟨row, hr, row', hr', own, hlive, hout, hunrenewed⟩ := hretired
  have hsound := (retirement_sound orderly next row hr row' hr' own).2 _ _ rfl hlive hout
  exact ⟨row, hr, hsound.unseen, hsound.upstream, hsound.unobserved (.inl hunrenewed)⟩

/-- The source loses its proxy after half a day, and three refreshes follow within minutes. -/
def hastyRefreshes : List (RefreshStep ℚ) :=
  sampleRefresh 0 "first" sampleBody ++ sampleRefresh (hours 13) "second" sampleBody ++
    sampleRefresh (hours 13 + minutes 1) "third" (.body [] none none) ++
      sampleRefresh (hours 13 + minutes 2) "fourth" (.body [] none none) ++
        (sampleRefresh (hours 13 + minutes 3) "fifth" (.body [] none none)).dropLast

theorem retirement_not_always_spaced :
    ¬ ∀ (steps : List (RefreshStep ℚ)) (now : Time) (minimum : ℕ),
      ObservedRuns.Admitted (step sampleLibraries) (Orderly sampleLibraries) {} steps →
      3 ≤ minimum →
      ∀ row ∈ (ObservedRuns.run (step sampleLibraries) {} steps).store.nodes,
        ∀ row' ∈ ((ObservedRuns.run (step sampleLibraries) {} steps).step sampleLibraries
          (.reconcile now minimum)).store.nodes, row'.id = row.id →
          row.lifecycleState ≠ .retired → row'.lifecycleState = .retired →
            ∀ a ∈ answers (ObservedRuns.run (step sampleLibraries) {} steps).history,
              row.configHash ∈ a.identities → a.time ≤ now - hours 12 := by
  intro h
  have orderly : ObservedRuns.Admitted (step sampleLibraries) (Orderly sampleLibraries) {}
      hastyRefreshes := by decide +kernel
  have hretired : ∃ row ∈ (ObservedRuns.run (step sampleLibraries) {} hastyRefreshes).store.nodes,
      ∃ row' ∈ ((ObservedRuns.run (step sampleLibraries) {} hastyRefreshes).step sampleLibraries
        (.reconcile (hours 13 + minutes 3) 3)).store.nodes, row'.id = row.id ∧
          row.lifecycleState ≠ .retired ∧ row'.lifecycleState = .retired ∧
            ∃ a ∈ answers (ObservedRuns.run (step sampleLibraries) {} hastyRefreshes).history,
              row.configHash ∈ a.identities ∧
                ¬ a.time ≤ hours 13 + minutes 3 - hours 12 := by decide +kernel
  obtain ⟨row, hr, row', hr', own, hlive, hout, a, ha, hmem, hrecent⟩ := hretired
  exact hrecent (h _ _ _ orderly le_rfl row hr row' hr' own hlive hout a ha hmem)

end RefreshWorld

end ProxyFleet
