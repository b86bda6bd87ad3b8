import ProxyFleet.DemotionGuard
import ProxyFleet.EvidenceWindows
import ProxyFleet.ScoreBounds

/-!
# Inconclusive events

An event of local overload or of a failed endpoint carries no weight, keeps every
counter and opens no window. The lifecycle is nevertheless decided anew from the
evidence of earlier events, so a threshold that time or a revival has put behind
the node is crossed by the next event of any class. In a full window the event also
takes the place of the last of them.
-/
namespace ProxyFleet

variable {F : Type}

/-- What an event without evidence should leave alone. -/
structure Undisturbed (row row' : Node F) : Prop where
  lifecycle : row'.seenLifecycle = row.seenLifecycle
  failureStreak : row'.failureStreak = row.failureStreak
  successStreak : row'.successStreak = row.successStreak
  independentFailures : row'.independentFailureCount = row.independentFailureCount
  activatedAt : row'.activatedAt = row.activatedAt
  lease : row'.publicationLeaseUntil = row.publicationLeaseUntil

variable [F64 F]

/-- Rounding leaves a sum with zero as it is, from one upwards. -/
class F64.ZeroNeutral (F : Type) [F64 F] : Prop where
  add_zero {a : F} : F64.le (F64.ofRat 1) a = true → F64.add a (F64.ofRat 0) = a

instance : F64.ZeroNeutral ℚ where
  add_zero _ := Rat.add_zero _

/-- The score of the events that the window keeps, with their priors and bounds. -/
def Store.standingScore (s : Store F) (now : Time) (event : TestEventInput F) : F :=
  let totals := (s.standing now event).foldl (TestEvent.accumulate now)
    (F64.ofRat 1, F64.ofRat 1)
  health (F64.min totals.1 (F64.ofRat maxEffectiveAlpha))
    (F64.min totals.2 (F64.ofRat maxEffectiveBeta))

/-- The earlier evidence alone moves the row across a threshold of its state. -/
def Node.Overdue (row : Node F) (score : F) (cadence : Cadence) (now : Time) : Prop :=
  (row.seenLifecycle = .active ∧ F64.lt score (F64.ofRat (35 / 100)) = true ∧
    2 ≤ row.independentFailureCount ∧
    ∃ activated, row.activatedAt = some activated ∧ cadence.activeMinResidence ≤ now - activated) ∨
  (row.seenLifecycle = .probation ∧ F64.le (F64.ofRat (70 / 100)) score = true) ∨
  (row.seenLifecycle = .probation ∧ F64.lt score (F64.ofRat (15 / 100)) = true ∧
    3 ≤ row.failureStreak)

instance (row : Node F) (score : F) (cadence : Cadence) (now : Time) :
    Decidable (row.Overdue score cadence now) :=
  have : Decidable (∃ activated, row.activatedAt = some activated ∧
      cadence.activeMinResidence ≤ now - activated) :=
    inferInstanceAs (Decidable (∃ activated ∈ row.activatedAt, _ ≤ now - activated))
  inferInstanceAs (Decidable (_ ∧ _ ∧ _ ∧ _ ∨ _ ∧ _ ∨ _ ∧ _ ∧ _))

/-- Both counters stand for `u32` values. -/
structure CountersBounded (row : Node F) : Prop where
  streak : (asU32 row.failureStreak : ℤ) = row.failureStreak
  independent : (asU32 row.independentFailureCount : ℤ) = row.independentFailureCount

theorem countersBounded_writes (ws : List (Write F)) :
    ∀ row ∈ (Store.empty.writes ws).nodes, CountersBounded row := by
  refine rows_law (A := fun _ => True) (P := CountersBounded) ?_ ?_ fun _ _ => trivial
  · intro s w row _ hi
    cases hi
    exact ⟨rfl, rfl⟩
  · intro s w row row' _ _ hr h hs
    obtain ⟨now, event, cadence, draw, rfl, -, -, rfl⟩ | ⟨-, hsum, -⟩ := hs.event_or_frame hr
    · constructor
      · exact congrArg _ (asU32_natCast (HealthInput.decidedFailureStreak_le (asU32_le _)))
      · exact congrArg _ (asU32_natCast (HealthInput.decidedIndependentFailures_le (asU32_le _)))
    · have hstreak := congrArg EvidenceSummary.failureStreak hsum
      have hindep := congrArg EvidenceSummary.independentFailureCount hsum
      simp only [Node.summary] at hstreak hindep
      exact ⟨hstreak ▸ h.streak, hindep ▸ h.independent⟩

section Application

variable {row : Node F} {s : Store F} {now : Time} {event : TestEventInput F} {cadence : Cadence}
  {draw : ℕ}

theorem seenLifecycle_applyEvent (totals : F × F) :
    (row.applyEvent totals event cadence now draw).seenLifecycle =
      (row.healthInput totals event cadence now).decidedLifecycle := by
  simp [Node.seenLifecycle, Node.applyEvent, Node.applyDecision, HealthInput.decide]

/-- An inconclusive event keeps the lifecycle exactly when no threshold is overdue. -/
theorem decidedLifecycle_eq_iff (totals : F × F)
    (inconclusive : event.failureClass.inconclusive = true) (bounded : CountersBounded row) :
    (row.healthInput totals event cadence now).decidedLifecycle = row.seenLifecycle ↔
      ¬ row.Overdue (health totals.1 totals.2) cadence now := by
  have hsucc : (row.healthInput totals event cadence now).succeeded = false := by
    simpa [HealthInput.succeeded, Node.healthInput] using
      FailureClass.ne_success_of_inconclusive inconclusive
  have hreal : (row.healthInput totals event cadence now).realDownload = false := by
    simp [HealthInput.realDownload, hsucc]
  have hclass : event.failureClass ≠ .invalidConfig := by
    intro h
    simp [h, FailureClass.inconclusive] at inconclusive
  have hindep : (2 ≤ (row.healthInput totals event cadence now).decidedIndependentFailures) ↔
      2 ≤ row.independentFailureCount := by
    have := bounded.independent
    simp only [HealthInput.decidedIndependentFailures, hsucc]
    simp only [Node.healthInput, inconclusive, Bool.false_eq_true, if_false, if_true]
    omega
  have hstreak : (3 ≤ (row.healthInput totals event cadence now).decidedFailureStreak) ↔
      3 ≤ row.failureStreak := by
    have := bounded.streak
    simp only [HealthInput.decidedFailureStreak, hsucc]
    simp only [Node.healthInput, inconclusive, Bool.false_eq_true, if_false, if_true]
    omega
  have hres : (row.healthInput totals event cadence now).activeResident = true ↔
      ∃ activated, row.activatedAt = some activated ∧
        cadence.activeMinResidence ≤ now - activated := by
    simp only [HealthInput.activeResident, Node.healthInput, Cadence.fromStd_residence]
    cases row.activatedAt <;> simp
  have hscore : (row.healthInput totals event cadence now).score = health totals.1 totals.2 := rfl
  have hprior : (row.healthInput totals event cadence now).priorLifecycle = row.seenLifecycle := rfl
  have hclass' : (row.healthInput totals event cadence now).failureClass ≠ .invalidConfig := hclass
  unfold HealthInput.decidedLifecycle HealthInput.hysteresis Node.Overdue
  rw [hreal, hprior, hscore, hsucc, ← hindep, ← hstreak, ← hres]
  cases row.seenLifecycle with
  | active =>
    cases (row.healthInput totals event cadence now).activeResident with
    | false => simp [hclass']
    | true =>
      cases F64.lt (health totals.1 totals.2) (F64.ofRat (35 / 100)) <;> simp [hclass']
  | probation =>
    cases F64.le (F64.ofRat (70 / 100)) (health totals.1 totals.2) with
    | true => simp [hclass']
    | false =>
      cases F64.lt (health totals.1 totals.2) (F64.ofRat (15 / 100)) <;> simp [hclass']
  | candidate | testing | dormant | invalid | retired | waitingForPort => simp [hclass']

/-- Everything but the lifecycle is kept in any case, up to an activation. -/
theorem undisturbed_iff (totals : F × F) (inconclusive : event.failureClass.inconclusive = true)
    (bounded : CountersBounded row) :
    Undisturbed row (row.applyEvent totals event cadence now draw) ↔
      ¬ row.Overdue (health totals.1 totals.2) cadence now := by
  have hne := FailureClass.ne_success_of_inconclusive inconclusive
  have hsucc : (row.healthInput totals event cadence now).succeeded = false := by
    simpa [HealthInput.succeeded, Node.healthInput] using hne
  rw [← decidedLifecycle_eq_iff totals inconclusive bounded]
  constructor
  · intro h
    exact (seenLifecycle_applyEvent totals).symm.trans h.lifecycle
  · intro h
    refine ⟨(seenLifecycle_applyEvent totals).trans h, ?_, ?_, ?_, ?_, ?_⟩
    · refine Eq.trans ?_ bounded.streak
      change ((HealthInput.decidedFailureStreak _ : ℕ) : ℤ) = _
      simp only [HealthInput.decidedFailureStreak, hsucc]
      simp [Node.healthInput, inconclusive]
    · simp [Node.applyEvent, Node.applyDecision, hne, inconclusive]
    · refine Eq.trans ?_ bounded.independent
      change ((HealthInput.decidedIndependentFailures _ : ℕ) : ℤ) = _
      simp only [HealthInput.decidedIndependentFailures, hsucc]
      simp [Node.healthInput, inconclusive]
    · refine if_neg fun hact => hact.2 ?_
      exact h.symm.trans hact.1
    · exact HealthInput.decidedLease_of_not_succeeded hsucc

end Application

section Totals

/-- Both weights of an event count against nothing. -/
def TestEvent.Weighed (e : TestEvent F) : Prop :=
  F64.le (F64.ofRat 0) e.evidenceAlpha = true ∧ F64.le (F64.ofRat 0) e.evidenceBeta = true

variable [F64.Lawful F]

theorem weighed_write {s : Store F} (h : ∀ e ∈ s.events, e.Weighed) (w : Write F) :
    ∀ e ∈ (s.write w).events, e.Weighed := by
  obtain ⟨now, event, -, -, -, -, hevents⟩ | ⟨-, hevents⟩ := s.events_write w
  · rw [hevents, events_recordTestEvent]
    intro e he
    rcases List.mem_append.mp he with he | he
    · exact h e he
    · obtain rfl := List.mem_singleton.mp he
      exact ⟨delta_alpha_nonneg _ _ _, delta_beta_nonneg _ _ _⟩
  · rw [hevents]
    exact h

theorem weighed_writes (ws : List (Write F)) :
    ∀ e ∈ (Store.empty.writes ws).events, e.Weighed :=
  ObservedRuns.run_preserves (I := fun s : Store F => ∀ e ∈ s.events, e.Weighed)
    (fun _ w h => weighed_write h w) (fun _ he => absurd he List.not_mem_nil) ws

/-- Both totals start at one and only grow. -/
theorem one_le_accumulated (now : Time) {es : List (TestEvent F)}
    (weighed : ∀ e ∈ es, e.Weighed) {a b : F} (halpha : F64.le (F64.ofRat 1) a = true)
    (hbeta : F64.le (F64.ofRat 1) b = true) :
    F64.le (F64.ofRat 1) (es.foldl (TestEvent.accumulate now) (a, b)).1 = true ∧
      F64.le (F64.ofRat 1) (es.foldl (TestEvent.accumulate now) (a, b)).2 = true := by
  induction es generalizing a b with
  | nil => exact ⟨halpha, hbeta⟩
  | cons e es ih =>
    obtain ⟨ha, hb⟩ := weighed e List.mem_cons_self
    refine ih (fun e he => weighed e (List.mem_cons_of_mem _ he)) ?_ ?_
    · exact F64.Lawful.le_trans halpha (F64.Lawful.le_add (decay_nonneg ha _ _))
    · exact F64.Lawful.le_trans hbeta (F64.Lawful.le_add (decay_nonneg hb _ _))

variable [F64.ZeroNeutral F] {s : Store F} {now : Time} {event : TestEventInput F}

/-- An event without weight changes no total among the others. -/
theorem foldl_accumulate_weightless (now : Time) {before : List (TestEvent F)}
    (behind : List (TestEvent F)) {e : TestEvent F} (weighed : ∀ e ∈ before, e.Weighed)
    (halpha : e.evidenceAlpha = F64.ofRat 0) (hbeta : e.evidenceBeta = F64.ofRat 0) :
    (before ++ e :: behind).foldl (TestEvent.accumulate now) (F64.ofRat 1, F64.ofRat 1) =
      (before ++ behind).foldl (TestEvent.accumulate now) (F64.ofRat 1, F64.ofRat 1) := by
  have hone : F64.le (F64.ofRat 1 : F) (F64.ofRat 1) = true := F64.Lawful.ofRat_le le_rfl
  obtain ⟨hfirst, hsecond⟩ := one_le_accumulated now weighed hone hone
  rw [List.foldl_append, List.foldl_append, List.foldl_cons]
  congr 1
  rw [TestEvent.accumulate, halpha, hbeta, decay_zero,
    F64.ZeroNeutral.add_zero hfirst, F64.ZeroNeutral.add_zero hsecond]

/-- The score after an inconclusive event is that of what the window keeps. -/
theorem health_scored_inconclusive (weighed : ∀ e ∈ s.events, e.Weighed)
    (inconclusive : event.failureClass.inconclusive = true) :
    health (s.scored now event).1 (s.scored now event).2 = s.standingScore now event := by
  have hfold : ((s.recordTestEvent now event).evidence event.proxyId now).foldl
      (TestEvent.accumulate now) (F64.ofRat 1, F64.ofRat 1) =
      (s.standing now event).foldl (TestEvent.accumulate now) (F64.ofRat 1, F64.ofRat 1) := by
    by_cases hreached : s.Reached now event
    · obtain ⟨before, behind, hstanding, hrecorded⟩ := Store.evidence_of_reached hreached
      have hzero : (event.recorded s.events.length now).evidenceAlpha = F64.ofRat 0 ∧
          (event.recorded s.events.length now).evidenceBeta = F64.ofRat 0 := by
        simp only [TestEventInput.recorded]
        cases hc : event.failureClass <;> simp [hc, FailureClass.inconclusive] at inconclusive <;>
          exact ⟨rfl, rfl⟩
      rw [hstanding, hrecorded]
      refine foldl_accumulate_weightless now behind (fun e he => weighed e ?_) hzero.1 hzero.2
      have hkept : e ∈ s.standing now event := hstanding ▸ List.mem_append_left _ he
      rw [Store.standing, if_pos hreached] at hkept
      exact s.mem_events_of_evidence (List.mem_of_mem_take hkept)
    · rw [Store.standing, if_neg hreached, Store.evidence_of_not_reached hreached]
  simp only [Store.scored, Store.effectiveEvidence, Store.standingScore, hfold]

end Totals

/-- In every reachable store an inconclusive event on an existing node is neutral exactly when
it repeats an observation or the evidence that the window keeps leaves no threshold overdue. -/
theorem inconclusive_neutral_iff [F64.Lawful F] [F64.ZeroNeutral F] (ws : List (Write F))
    {row : Node F} (now : Time) (event : TestEventInput F) (cadence : Cadence) (draw : ℕ)
    (found : (Store.empty.writes ws).findNode event.proxyId = some row)
    (inconclusive : event.failureClass.inconclusive = true) :
    (∃ row', ((Store.empty.writes ws).write (.applyTestEvent now event cadence draw)).findNode
        event.proxyId = some row' ∧ Undisturbed row row') ↔
      (Store.empty.writes ws).alreadyApplied event = true ∨
        ¬ row.Overdue ((Store.empty.writes ws).standingScore now event) cadence now := by
  set s := Store.empty.writes ws with hs
  have hr := (Store.mem_of_findNode found).1
  have own := (Store.mem_of_findNode found).2
  have bounded := countersBounded_writes ws row hr
  rw [Store.write_applyTestEvent]
  cases ha : s.alreadyApplied event with
  | true =>
    have hacc : s.accepts event = false := by simp [Store.accepts, ha]
    simp only [hacc, Bool.false_eq_true, if_false, true_or, iff_true]
    exact ⟨row, found, ⟨rfl, rfl, rfl, rfl, rfl, rfl⟩⟩
  | false =>
    have hacc : s.accepts event = true := by simp [Store.accepts, ha, found]
    have hfind : ((s.recordTestEvent now event).updateNodes (fun row => row.id = event.proxyId)
        (fun row => row.applyEvent (s.scored now event) event cadence now draw)).findNode
          event.proxyId =
        some (row.applyEvent (s.scored now event) event cadence now draw) := by
      refine (Store.findNode_updateNodes _ _ ?_ _).trans ?_
      · exact fun _ => rfl
      · change Option.map _ (s.findNode event.proxyId) = _
        simp [found, own]
    simp only [hacc, if_true, hfind, Option.some.injEq, exists_eq_left', Bool.false_eq_true,
      false_or]
    rw [undisturbed_iff _ inconclusive bounded,
      health_scored_inconclusive (weighed_writes ws) inconclusive]

/-- Five timeouts within a millisecond leave a candidate far below every threshold, which a
revival then makes count. -/
def revivedAfterTimeouts : List (Write ℚ) :=
  .ingestOne 0 sampleProxy "node" 1 ::
    ["a", "b", "c", "d", "e"].map (fun runId => .applyTestEvent (minutes 1)
      (sampleEvent runId .dnsTcp .tcpTimeout) defaultCadence 0) ++
    [.reviveNode (minutes 1 + 1000) "node"]

/-- The next event is local overload, and it takes the node to `DORMANT`. -/
theorem inconclusive_not_neutral :
    ¬ ∀ (ws : List (Write ℚ)) (row row' : Node ℚ) (now : Time) (event : TestEventInput ℚ)
        (cadence : Cadence) (draw : ℕ),
      (Store.empty.writes ws).findNode event.proxyId = some row →
      event.failureClass.inconclusive = true →
      ((Store.empty.writes ws).write (.applyTestEvent now event cadence draw)).findNode
        event.proxyId = some row' →
      Undisturbed row row' := by
  intro h
  have hbefore : ((Store.empty.writes revivedAfterTimeouts).findNode "node").map
      Node.seenLifecycle = some .probation := by decide +kernel
  have hafter : (((Store.empty.writes revivedAfterTimeouts).write (.applyTestEvent
      (minutes 1 + 2000) (sampleEvent "f" .static .localOverload) defaultCadence 0)).findNode
        "node").map Node.seenLifecycle = some .dormant := by decide +kernel
  obtain ⟨row, found, hrow⟩ := Option.map_eq_some_iff.mp hbefore
  obtain ⟨row', found', hrow'⟩ := Option.map_eq_some_iff.mp hafter
  have hsame := (h revivedAfterTimeouts row row' _ (sampleEvent "f" .static .localOverload) _ _
    found rfl found').lifecycle
  rw [hrow, hrow'] at hsame
  cases hsame

/-- A revived node with a relay success, whose score of 2/3 is within `PROBATION`. -/
def relayedAfterRevival : List (Write ℚ) :=
  [.ingestOne 0 sampleProxy "node" 1, .reviveNode (minutes 1) "node",
    .applyTestEvent (minutes 1) (sampleEvent "a" .relay .success) defaultCadence 0]

/-- The same event is neutral on it. -/
theorem inconclusive_neutral_iff_probation :
    ∃ row row' : Node ℚ, row.lifecycleState = .probation ∧
      (Store.empty.writes relayedAfterRevival).findNode "node" = some row ∧
      ((Store.empty.writes relayedAfterRevival).write (.applyTestEvent (minutes 1)
        (sampleEvent "f" .static .localOverload) defaultCadence 0)).findNode "node" = some row' ∧
      Undisturbed row row' := by
  have hstate : ((Store.empty.writes relayedAfterRevival).findNode "node").map
      (fun row : Node ℚ => (row.lifecycleState, row.seenLifecycle)) =
        some (.probation, .probation) := by decide +kernel
  have hscore : (Store.empty.writes relayedAfterRevival).standingScore (minutes 1)
      (sampleEvent "f" .static .localOverload) = 2 / 3 := by decide +kernel
  obtain ⟨row, found, hrow⟩ := Option.map_eq_some_iff.mp hstate
  obtain ⟨hlifecycle, hseen⟩ := Prod.mk.inj hrow
  have hquiet : ¬ row.Overdue (2 / 3 : ℚ) defaultCadence (minutes 1) := by
    norm_num [Node.Overdue, hseen, F64.le, F64.lt, F64.ofRat]
  obtain ⟨row', found', hsame⟩ := (inconclusive_neutral_iff relayedAfterRevival (minutes 1)
    (sampleEvent "f" .static .localOverload) defaultCadence 0 found rfl).mpr
      (.inr (hscore ▸ hquiet))
  exact ⟨row, row', hlifecycle, found, found', hsame⟩

end ProxyFleet
