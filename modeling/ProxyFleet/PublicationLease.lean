import ProxyFleet.EventHistory
import ProxyFleet.ScoreBounds

/-!
# The publication lease

The lease of a row is the latest end of the windows that its successes opened.
The one-shot seed of legacy leases stays without effect, since a row that earned
`ACTIVE` earned a lease with it. Row ids are random and do not repeat.
-/
namespace ProxyFleet

variable {F : Type}

/-- The end of the window of a success. -/
def AppliedEvent.windowEnd (e : AppliedEvent) : Time := leaseUntil e.stage e.fastDownload e.time

/-- The latest end of a window in a history. -/
def leaseMax (own : List AppliedEvent) : Option Time :=
  ((own.filter fun e => e.failureClass = .success).map (·.windowEnd)).max?

theorem leaseMax_success {e : AppliedEvent} (own : List AppliedEvent)
    (h : e.failureClass = .success) :
    leaseMax (e :: own) = some (((leaseMax own).map (max · e.windowEnd)).getD e.windowEnd) := by
  unfold leaseMax
  rw [List.filter_cons_of_pos (by simpa using h), List.map_cons, List.max?_cons]
  cases ((own.filter fun e => e.failureClass = .success).map (·.windowEnd)).max? with
  | none => rfl
  | some lease => simp [max_comm]

theorem leaseMax_other {e : AppliedEvent} (own : List AppliedEvent)
    (h : e.failureClass ≠ .success) : leaseMax (e :: own) = leaseMax own := by
  simp [leaseMax, h]

/-- The lease is the end of the window of some success. -/
theorem exists_of_leaseMax {own : List AppliedEvent} {lease : Time}
    (h : leaseMax own = some lease) :
    ∃ e ∈ own, e.failureClass = .success ∧ e.windowEnd = lease := by
  obtain ⟨e, he, rfl⟩ := List.mem_map.mp (List.max?_mem h)
  obtain ⟨hmem, hclass⟩ := List.mem_filter.mp he
  exact ⟨e, hmem, by simpa using hclass, rfl⟩

/-- Every success of the history keeps the lease at least as long as its window. -/
theorem windowEnd_le_leaseMax {own : List AppliedEvent} {e : AppliedEvent} (he : e ∈ own)
    (h : e.failureClass = .success) : ∃ lease, leaseMax own = some lease ∧ e.windowEnd ≤ lease := by
  have hm : e.windowEnd ∈ (own.filter fun e => e.failureClass = .success).map (·.windowEnd) :=
    List.mem_map.mpr ⟨e, List.mem_filter.mpr ⟨he, by simpa using h⟩, rfl⟩
  cases hmax : leaseMax own with
  | none =>
    rw [leaseMax, List.max?_eq_none_iff] at hmax
    simp [hmax] at hm
  | some lease => exact ⟨lease, rfl, (List.max?_eq_some_iff.mp hmax).2 _ hm⟩

theorem leaseMax_mono {own own' : List AppliedEvent} (h : own ⊆ own') {lease : Time}
    (hl : leaseMax own = some lease) : ∃ lease', leaseMax own' = some lease' ∧ lease ≤ lease' := by
  obtain ⟨e, he, hs, rfl⟩ := exists_of_leaseMax hl
  exact windowEnd_le_leaseMax (h he) hs

variable [F64 F]

/-- The recorded events and the notes of a run name the same nodes and classes, and only
successes carry positive weight. -/
structure EventsLogged (s : Store F) (log : List AppliedEvent) : Prop where
  noted : ∀ e ∈ s.events, ∃ entry ∈ log,
    entry.proxyId = e.proxyId ∧ entry.failureClass = e.failureClass
  recorded : ∀ entry ∈ log, ∃ e ∈ s.events, e.proxyId = entry.proxyId
  alpha : ∀ e ∈ s.events, e.failureClass ≠ .success → e.evidenceAlpha = F64.ofRat 0
  beta : ∀ e ∈ s.events, F64.le (F64.ofRat 0) e.evidenceBeta = true

/-- Under fresh ids the notes only grow. -/
theorem EventsLogged.suffix_noteEvent {s : Store F} {log : List AppliedEvent}
    (h : EventsLogged s log) {w : Write F} (fresh : w.FreshId s) :
    log <:+ noteEvent log s w := by
  cases w with
  | applyTestEvent now event cadence draw =>
    simp only [noteEvent]
    split
    · split
      · exact List.suffix_rfl
      · exact List.suffix_cons _ _
    · exact List.suffix_rfl
  | ingestOne now proxy newId generation =>
    simp only [noteEvent]
    split
    · exact List.suffix_rfl
    · have hall : ∀ entry ∈ log, decide (entry.proxyId ≠ newId) = true := by
        intro entry hentry
        obtain ⟨e, he, hid⟩ := h.recorded entry hentry
        simpa [← hid] using fresh e he
      rw [List.filter_eq_self.mpr hall]
  | _ => exact List.suffix_rfl

variable [F64.Lawful F]

theorem EventsLogged.write {s : Store F} {log : List AppliedEvent} (h : EventsLogged s log)
    {w : Write F} (fresh : w.FreshId s) : EventsLogged (s.write w) (noteEvent log s w) := by
  have hgrow := (h.suffix_noteEvent fresh).subset
  obtain ⟨now, event, cadence, draw, rfl, hacc, hev⟩ | ⟨hno, hev⟩ := s.events_write w
  · obtain ⟨row, hnote⟩ := noteEvent_accepted hacc log now cadence draw
    rw [hnote] at hgrow ⊢
    constructor
    all_goals rw [hev]; simp only [Store.recordTestEvent, List.mem_append, List.mem_singleton]
    · rintro e (he | rfl)
      · obtain ⟨entry, hentry, heq⟩ := h.noted e he
        exact ⟨entry, hgrow hentry, heq⟩
      · exact ⟨_, List.mem_cons_self, rfl, rfl⟩
    · intro entry hentry
      obtain rfl | hentry := List.mem_cons.mp hentry
      · exact ⟨_, .inr rfl, rfl⟩
      · obtain ⟨e, he, hid⟩ := h.recorded entry hentry
        exact ⟨e, .inl he, hid⟩
    · rintro e (he | rfl) hne
      · exact h.alpha e he hne
      · exact delta_alpha event.fastDownload hne
    · rintro e (he | rfl)
      · exact h.beta e he
      · exact delta_beta_nonneg event.stage event.failureClass event.fastDownload
  · have hshrink := noteEvent_subset hno log
    constructor
    all_goals rw [hev]
    · intro e he
      obtain ⟨entry, hentry, heq⟩ := h.noted e he
      exact ⟨entry, hgrow hentry, heq⟩
    · exact fun entry hentry => h.recorded entry (hshrink hentry)
    · exact h.alpha
    · exact h.beta

omit [F64.Lawful F] in
theorem eventsLogged_empty : EventsLogged (Store.empty : Store F) [] :=
  ⟨by simp [Store.empty], by simp, by simp [Store.empty], by simp [Store.empty]⟩

/-- The lease of a row is the law's, and a row that stands in `ACTIVE` has one. -/
structure LeaseLaw (log : List AppliedEvent) (row : Node F) : Prop where
  lease : row.publicationLeaseUntil = leaseMax (ownHistory row.id log)
  earned : row.Stores .active → row.publicationLeaseUntil.isSome = true

omit [F64.Lawful F] in
theorem leaseMax_entry {s : Store F} {row : Node F} {now : Time} {event : TestEventInput F}
    {cadence : Cadence} {draw : ℕ} {own : List AppliedEvent}
    (h : row.publicationLeaseUntil = leaseMax own) :
    (row.applyEvent (s.scored now event) event cadence now draw).publicationLeaseUntil =
      leaseMax (row.entry s now event cadence draw :: own) := by
  change (row.healthInput (s.scored now event) event cadence now).decidedLease = _
  by_cases hs : event.failureClass = .success
  · have hsucceeded :
        (row.healthInput (s.scored now event) event cadence now).succeeded = true := by
      simp [HealthInput.succeeded, Node.healthInput, hs]
    have hclass : (row.entry s now event cadence draw).failureClass = .success := hs
    rw [HealthInput.decidedLease_of_succeeded hsucceeded, leaseMax_success own hclass, ← h]
    rfl
  · rw [HealthInput.decidedLease_of_not_succeeded
      (by simp [HealthInput.succeeded, Node.healthInput, hs]),
      leaseMax_other own (show (row.entry s now event cadence draw).failureClass ≠ _ from hs), ← h]
    rfl

/-- An event that activates a row leaves it with a lease. -/
theorem activation_earns {s : Store F} {log : List AppliedEvent} (hlog : EventsLogged s log)
    {row : Node F} (h : LeaseLaw log row) {now : Time} {event : TestEventInput F}
    {cadence : Cadence} {draw : ℕ} (own : row.id = event.proxyId)
    (active : (row.applyEvent (s.scored now event) event cadence now draw).lifecycleState =
      .active) :
    (row.applyEvent (s.scored now event) event cadence now draw).publicationLeaseUntil.isSome =
      true := by
  rw [leaseMax_entry h.lease]
  by_cases hs : event.failureClass = .success
  · obtain ⟨lease, hlease, -⟩ := windowEnd_le_leaseMax
      (List.mem_cons_self (a := row.entry s now event cadence draw) (l := ownHistory row.id log)) hs
    rw [hlease]; rfl
  rw [leaseMax_other _ (show (row.entry s now event cadence draw).failureClass ≠ _ from hs),
    ← h.lease]
  by_cases hp : row.seenLifecycle = .active
  · exact h.earned (hp ▸ row.stores_seenLifecycle)
  obtain hd | ⟨-, hscore⟩ := HealthInput.becomes_active
    (i := row.healthInput (s.scored now event) event cadence now) hp active
  · simp [HealthInput.realDownload, HealthInput.succeeded, Node.healthInput, hs] at hd
  -- A score that promotes rests on a success of the node, which left a lease.
  cases hl : row.publicationLeaseUntil with
  | some lease => rfl
  | none =>
    have hnone : ∀ e ∈ s.events, e.proxyId = event.proxyId → e.failureClass ≠ .success := by
      intro e he hid hsucc
      obtain ⟨entry, hentry, heq, hclass⟩ := hlog.noted e he
      have hmem : entry ∈ ownHistory row.id log := by
        simpa [ownHistory, heq, hid, own] using hentry
      obtain ⟨lease, hlease, -⟩ := windowEnd_le_leaseMax hmem (hclass.trans hsucc)
      rw [← h.lease, hl] at hlease
      cases hlease
    have hlow := promotion_needs_positive_evidence (s := s.recordTestEvent now event)
      event.proxyId ?_ ?_ now
    · rw [show health _ _ = _ from rfl] at hlow
      exact absurd hscore (by
        simpa [HealthInput.score, Node.healthInput, Store.scored] using hlow)
    all_goals
      simp only [Store.recordTestEvent, List.mem_append, List.mem_singleton]
      rintro e (he | rfl)
    · exact fun hid => hlog.alpha e he (hnone e he hid)
    · exact fun _ => delta_alpha event.fastDownload hs
    · exact hlog.beta e he
    · exact delta_beta_nonneg event.stage event.failureClass event.fastDownload

theorem leaseLaw_history {ws : List (Write F)}
    (fresh : ObservedRuns.Admitted Store.write (fun s w => w.FreshId s) Store.empty ws) :
    ∀ row ∈ (Store.empty.writes ws).nodes, LeaseLaw (history ws) row := by
  refine rows_invariant (J := EventsLogged) (P := LeaseLaw)
    (fun s log w hfresh _ hlog => hlog.write hfresh) ?_ ?_ Store.wellKeyed_empty
    eventsLogged_empty (by simp [Store.empty]) fresh
  · intro s log w row _ _ hi
    refine ⟨?_, ?_⟩
    · rw [ownHistory_inserted hi]
      cases hi
      rfl
    · cases hi
      simp [Node.Stores, Node.ingested]
  · intro s log w row row' _ hk hlog hr h hs
    have hkeep : ¬ row.legacySeedable = true := by
      intro hseed
      simp only [Node.legacySeedable, Bool.and_eq_true, decide_eq_true_eq,
        Option.isNone_iff_eq_none] at hseed
      have hsome := h.earned (.inl hseed.1.1.1)
      simp [hseed.2] at hsome
    constructor
    · obtain ⟨now, event, cadence, draw, rfl, own, hacc, rfl⟩ | ⟨hsame, -, hlease⟩ :=
        hs.event_or_frame hr
      · rw [leaseMax_entry h.lease]
        exact congrArg leaseMax (ownHistory_applied hk hr own hacc).symm
      · rw [hlease.resolve_right hkeep, h.lease, hs.id_eq, hsame]
    · intro hst
      obtain hst | hst | ⟨hst, -⟩ | ⟨now, event, cadence, draw, rfl, own, hacc, rfl, hst⟩ :=
        hs.stores hst
      · have hsome := h.earned hst
        obtain ⟨now, event, cadence, draw, rfl, own, hacc, rfl⟩ | ⟨-, -, hlease⟩ :=
          hs.event_or_frame hr
        · exact HealthInput.decidedLease_isSome hsome
        · rwa [hlease.resolve_right hkeep]
      · simp at hst
      · cases hst
      · exact activation_earns hlog h own hst

omit [F64.Lawful F] in
/-- A published row's lease runs past the time of the snapshot. -/
theorem lease_of_published {s : Store F} {now : Time} {row : Node F}
    (h : row ∈ s.publishedNodes now) :
    row ∈ s.nodes ∧ ∃ lease, row.publicationLeaseUntil = some lease ∧ now < lease := by
  rw [Store.publishedNodes, List.mem_insertionSort, List.mem_filter] at h
  obtain ⟨hr, hp⟩ := h
  refine ⟨hr, ?_⟩
  simp only [Node.publishable, Node.leaseExpired, Bool.and_eq_true] at hp
  cases hl : row.publicationLeaseUntil with
  | none => simp [hl] at hp
  | some lease =>
    refine ⟨lease, rfl, ?_⟩
    simpa [hl] using hp.1.1.2

/-- Notes that a run starts with stay at the end of its notes. -/
theorem EventsLogged.suffix_notes {s : Store F} {log : List AppliedEvent}
    (h : EventsLogged s log) {ws : List (Write F)}
    (fresh : ObservedRuns.Admitted Store.write (fun s w => w.FreshId s) s ws) :
    log <:+ ObservedRuns.notes Store.write noteEvent log s ws := by
  induction ws generalizing s log with
  | nil => exact List.suffix_rfl
  | cons w ws ih => exact (h.suffix_noteEvent fresh.1).trans (ih (h.write fresh.1) fresh.2)

/-- Later histories of a run extend earlier ones. -/
theorem history_suffix {ws₁ ws₂ : List (Write F)}
    (fresh : ObservedRuns.Admitted Store.write (fun s w => w.FreshId s) Store.empty (ws₁ ++ ws₂)) :
    history ws₁ <:+ history (ws₁ ++ ws₂) := by
  obtain ⟨fresh₁, fresh₂⟩ := (ObservedRuns.admitted_append _ _ _ _ _).mp fresh
  have hlog : EventsLogged (Store.empty.writes ws₁) (history ws₁) :=
    ObservedRuns.notes_invariant (fun _ _ _ hw h => h.write hw) eventsLogged_empty fresh₁
  rw [history, history, ObservedRuns.notes_append]
  exact hlog.suffix_notes fresh₂

/-- The lease law of runs in which row ids do not repeat: the lease is the latest window end
of the successes, no write shortens it, and a published row has a success whose own window
still runs. -/
theorem publication_lease_law {ws : List (Write F)}
    (fresh : ObservedRuns.Admitted Store.write (fun s w => w.FreshId s) Store.empty ws) :
    (∀ row ∈ (Store.empty.writes ws).nodes,
      row.publicationLeaseUntil = leaseMax (ownHistory row.id (history ws))) ∧
    (∀ ws₁ ws₂, ws = ws₁ ++ ws₂ → ∀ row ∈ (Store.empty.writes ws₁).nodes,
      ∀ row' ∈ (Store.empty.writes ws).nodes, row'.id = row.id →
      ∀ lease, row.publicationLeaseUntil = some lease →
        ∃ lease', row'.publicationLeaseUntil = some lease' ∧ lease ≤ lease') ∧
    (∀ now, ∀ row ∈ (Store.empty.writes ws).publishedNodes now,
      ∃ e ∈ ownHistory row.id (history ws),
        e.failureClass = .success ∧ now < leaseUntil e.stage e.fastDownload e.time) := by
  refine ⟨fun row hr => (leaseLaw_history fresh row hr).lease, ?_, ?_⟩
  · rintro ws₁ ws₂ rfl row hr row' hr' hid lease hl
    have h₁ := leaseLaw_history ((ObservedRuns.admitted_append _ _ _ _ _).mp fresh).1 row hr
    have h₂ := leaseLaw_history fresh row' hr'
    rw [h₁.lease] at hl
    rw [h₂.lease, hid]
    refine leaseMax_mono (fun e he => ?_) hl
    obtain ⟨hmem, hown⟩ := List.mem_filter.mp he
    exact List.mem_filter.mpr ⟨(history_suffix fresh).subset hmem, hown⟩
  · intro now row hrow
    obtain ⟨hr, lease, hl, hlt⟩ := lease_of_published hrow
    rw [(leaseLaw_history fresh row hr).lease] at hl
    obtain ⟨e, he, hs, rfl⟩ := exists_of_leaseMax hl
    exact ⟨e, he, hs, hlt⟩

/-- An HTTP success inside the window of a download leaves the longer lease. -/
def leasedRun : List (Write ℚ) := [
  .ingestOne 0 sampleProxy "node" 1,
  .applyTestEvent (minutes 1) (sampleEvent "first" .download .success) defaultCadence 0,
  .applyTestEvent (minutes 2) (sampleEvent "second" .http .success) defaultCadence 0,
  .applyTestEvent (minutes 3) (sampleEvent "third" .relay .tlsTimeout) defaultCadence 0]

theorem publication_lease_law_leasedRun :
    ∃ row ∈ (Store.empty.writes leasedRun).nodes, row.publicationLeaseUntil.isSome = true ∧
      row.publicationLeaseUntil = leaseMax (ownHistory row.id (history leasedRun)) := by
  have hleased : ((Store.empty.writes leasedRun).nodes.any
      fun row => row.publicationLeaseUntil.isSome) = true := by decide +kernel
  obtain ⟨row, hr, hrow⟩ := List.any_eq_true.mp hleased
  exact ⟨row, hr, hrow, (publication_lease_law (by decide +kernel)).1 row hr⟩

end ProxyFleet
