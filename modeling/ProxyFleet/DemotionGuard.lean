import ProxyFleet.EventHistory

/-!
# The demotion guard

A row carries its independent failures as a counter and one run id, and its
residence as one time. The guard is a law about history, so both are tied to the
events that were applied since the last success and since the last activation.
-/
namespace ProxyFleet

/-- The conclusive failures since the last success, newest first. -/
def failuresSinceSuccess (own : List AppliedEvent) : List AppliedEvent :=
  (own.takeWhile fun e => e.failureClass ≠ .success).filter fun e =>
    e.failureClass.conclusiveFailure

/-- The time of the newest event that turned another state into `ACTIVE`. -/
def lastActivation (own : List AppliedEvent) : Option Time :=
  (own.find? fun e => decide (e.decided = .active ∧ e.prior ≠ .active)).map (·.time)

section SinceSuccess

variable {e : AppliedEvent} (own : List AppliedEvent)

theorem failuresSinceSuccess_inconclusive (h : e.failureClass.inconclusive = true) :
    failuresSinceSuccess (e :: own) = failuresSinceSuccess own := by
  simp [failuresSinceSuccess, FailureClass.ne_success_of_inconclusive h,
    FailureClass.not_conclusiveFailure_of_inconclusive h]

theorem failuresSinceSuccess_failure (h : e.failureClass.conclusiveFailure = true) :
    failuresSinceSuccess (e :: own) = e :: failuresSinceSuccess own := by
  simp [failuresSinceSuccess, (FailureClass.conclusiveFailure_iff.mp h).1, h]

end SinceSuccess

/-- Two different runs failed since the last success. -/
def TwoRunsFailed (own : List AppliedEvent) : Prop :=
  ∃ a ∈ failuresSinceSuccess own, ∃ b ∈ failuresSinceSuccess own, a.runId ≠ b.runId

theorem TwoRunsFailed.failure {e : AppliedEvent} {own : List AppliedEvent}
    (h : e.failureClass.conclusiveFailure = true) (ht : TwoRunsFailed own) :
    TwoRunsFailed (e :: own) := by
  obtain ⟨a, ha, b, hb, hab⟩ := ht
  unfold TwoRunsFailed
  rw [failuresSinceSuccess_failure own h]
  exact ⟨a, List.mem_cons_of_mem e ha, b, List.mem_cons_of_mem e hb, hab⟩

/-- What the summaries of a row say about its history. -/
structure SummaryReflects (own : List AppliedEvent) (m : EvidenceSummary) : Prop where
  activated : m.activatedAt = lastActivation own
  counter : ∃ n : ℕ, m.independentFailureCount = n ∧ n ≤ u32Max
  one : 1 ≤ m.independentFailureCount →
    ∃ e ∈ failuresSinceSuccess own, m.lastFailureRunId = some e.runId
  two : 2 ≤ m.independentFailureCount → TwoRunsFailed own

variable {F : Type} [F64 F]

section Application

variable {own : List AppliedEvent} {row : Node F} {s : Store F} {now : Time}
  {event : TestEventInput F} {cadence : Cadence} {draw : ℕ}

theorem lastActivation_entry (h : row.activatedAt = lastActivation own) :
    (row.applyEvent (s.scored now event) event cadence now draw).activatedAt =
      lastActivation (row.entry s now event cadence draw :: own) := by
  by_cases ha : (row.applyEvent (s.scored now event) event cadence now draw).lifecycleState =
      .active ∧ row.seenLifecycle ≠ .active
  · have he : lastActivation (row.entry s now event cadence draw :: own) = some now := by
      simp [lastActivation, Node.entry, ha.1, ha.2]
    rw [he]
    exact if_pos ha
  · have he : lastActivation (row.entry s now event cadence draw :: own) = lastActivation own := by
      unfold lastActivation
      rw [List.find?_cons_of_neg]
      exact fun hx => ha (of_decide_eq_true hx)
    rw [he, ← h]
    exact if_neg ha

theorem SummaryReflects.applied (h : SummaryReflects own row.summary) :
    SummaryReflects (row.entry s now event cadence draw :: own)
      (row.applyEvent (s.scored now event) event cadence now draw).summary := by
  obtain ⟨n, hn, hle⟩ := h.counter
  have hn : row.independentFailureCount = n := hn
  have hu : asU32 row.independentFailureCount = n := by rw [hn, asU32_natCast hle]
  have hone : 1 ≤ (n : ℤ) → ∃ e ∈ failuresSinceSuccess own, row.lastFailureRunId = some e.runId :=
    fun h1 => h.one (by simpa [Node.summary, hn] using h1)
  have htwo : 2 ≤ (n : ℤ) → TwoRunsFailed own := fun h2 =>
    h.two (by simpa [Node.summary, hn] using h2)
  refine ⟨lastActivation_entry h.activated,
    ⟨_, rfl, HealthInput.decidedIndependentFailures_le (asU32_le _)⟩, ?_, ?_⟩
  all_goals
    simp only [Node.summary, Node.applyEvent, Node.applyDecision, HealthInput.decide,
      HealthInput.decidedIndependentFailures, Node.healthInput, HealthInput.succeeded, hu]
    intro hcount
    obtain hs | hi | hf := event.failureClass.success_or_inconclusive_or_failure
  · simp [hs] at hcount
  · have hne := FailureClass.ne_success_of_inconclusive hi
    have hnf := FailureClass.not_conclusiveFailure_of_inconclusive hi
    rw [failuresSinceSuccess_inconclusive own hi]
    simp only [hi, hne, hnf, beq_iff_eq, if_false, if_true, Bool.false_eq_true] at hcount ⊢
    exact hone hcount
  · rw [failuresSinceSuccess_failure own hf]
    exact ⟨row.entry s now event cadence draw, List.mem_cons_self, by simp [hf, Node.entry]⟩
  · simp [hs] at hcount
  · have hne := FailureClass.ne_success_of_inconclusive hi
    simp only [hi, hne, beq_iff_eq, if_false, if_true] at hcount
    unfold TwoRunsFailed
    rw [failuresSinceSuccess_inconclusive own hi]
    exact htwo hcount
  · obtain ⟨hne, hni⟩ := FailureClass.conclusiveFailure_iff.mp hf
    by_cases hrun : row.lastFailureRunId = some event.runId
    · simp only [hne, hni, hf, hrun, beq_iff_eq, if_false, Bool.false_eq_true, ne_eq,
        not_true_eq_false, decide_false, Bool.and_false] at hcount
      exact (htwo hcount).failure hf
    · -- The counter moves to two only past a failure of another run.
      simp only [hne, hni, hf, hrun, beq_iff_eq, if_false, Bool.false_eq_true, ne_eq,
        not_false_eq_true, decide_true, Bool.and_true, if_true, saturatingSucc] at hcount
      have h1 : 1 ≤ (n : ℤ) := by
        have : 2 ≤ min (n + 1) u32Max := by exact_mod_cast hcount
        omega
      obtain ⟨e, he, hlast⟩ := hone h1
      unfold TwoRunsFailed
      rw [failuresSinceSuccess_failure own hf]
      refine ⟨_, List.mem_cons_self, e, List.mem_cons_of_mem _ he, ?_⟩
      rintro hsame
      exact hrun (by rw [hlast, ← hsame]; rfl)

end Application

/-- The summaries of every row reflect the history of the run that made it. -/
theorem summaryReflects_history (ws : List (Write F)) :
    ∀ row ∈ (Store.empty.writes ws).nodes,
      SummaryReflects (ownHistory row.id (history ws)) row.summary := by
  refine rows_preserved
    (P := fun log row => SummaryReflects (ownHistory row.id log) row.summary) ?_ ?_ ws
  · intro s log w row hi
    rw [ownHistory_inserted hi]
    cases hi
    exact ⟨rfl, ⟨0, rfl, Nat.zero_le _⟩, by simp [Node.summary, Node.ingested],
      by simp [Node.summary, Node.ingested]⟩
  · intro s log w row row' hk hr h hs
    obtain ⟨now, event, cadence, draw, rfl, own, fresh, rfl⟩ | ⟨hlog, hsum, -⟩ :=
      hs.event_or_frame hr
    · show SummaryReflects (ownHistory row.id _) _
      rw [ownHistory_applied hk hr own fresh]
      exact h.applied
    · rw [hs.id_eq, hlog, hsum]
      exact h

/-- Demotion out of `ACTIVE` by an event other than `INVALID_CONFIG` follows failures of two
different runs since the last success, after the residence that began with the last
activation, at a score below the threshold. -/
theorem active_demotion_guarded (ws : List (Write F)) {row : Node F} {now : Time}
    {event : TestEventInput F} {cadence : Cadence} {draw : ℕ} {s' : Store F}
    {applied : TestEventApplied F}
    (found : (Store.empty.writes ws).findNode event.proxyId = some row)
    (active : row.seenLifecycle = .active) (class_ne : event.failureClass ≠ .invalidConfig)
    (ok : (Store.empty.writes ws).applyTestEvent now event cadence draw = .ok (s', applied))
    (lowered : applied.lifecycleState ≠ .active) :
    TwoRunsFailed (ownHistory row.id
        (history (ws ++ [.applyTestEvent now event cadence draw]))) ∧
      (∃ activated, lastActivation (ownHistory row.id (history ws)) = some activated ∧
        row.activatedAt = some activated ∧ cadence.activeMinResidence ≤ now - activated) ∧
      F64.lt applied.healthScore (F64.ofRat (35 / 100)) = true := by
  set s := Store.empty.writes ws with hs
  have hk : s.WellKeyed := Store.wellKeyed_empty.writes ws
  obtain ⟨hr, own⟩ := Store.mem_of_findNode found
  have hreflects := summaryReflects_history ws row hr
  unfold Store.applyTestEvent at ok
  rw [found] at ok
  cases ha : s.alreadyApplied event with
  | true =>
    simp only [ha, if_true, Except.ok.injEq, Prod.mk.injEq] at ok
    rw [← ok.2] at lowered
    exact absurd active lowered
  | false =>
    have fresh : s.accepts event = true := by simp [Store.accepts, found, ha]
    simp only [ha, Bool.false_eq_true, if_false, Except.ok.injEq, Prod.mk.injEq] at ok
    obtain ⟨-, rfl⟩ := ok
    obtain ⟨resident, low, two, -⟩ := HealthInput.active_lowered active class_ne lowered
    refine ⟨?_, ?_, low⟩
    · rw [history, ObservedRuns.notes_concat]
      change TwoRunsFailed (ownHistory row.id (noteEvent (history ws) s _))
      rw [ownHistory_applied hk hr own fresh]
      exact hreflects.applied.two (Int.ofNat_le.mpr two)
    · simp only [HealthInput.activeResident, Node.healthInput, Cadence.fromStd_residence]
        at resident
      split at resident
      · next activated hact =>
        exact ⟨activated, hreflects.activated.symm.trans hact, hact, of_decide_eq_true resident⟩
      · cases resident

/-- A node becomes `ACTIVE` by a download and is refused by one run ten days later. -/
def refusedOnce : List (Write ℚ) := [
  .ingestOne 0 sampleProxy "node" 1,
  .applyTestEvent (hours 1) (sampleEvent "first" .download .success) defaultCadence 0,
  .applyTestEvent (hours 241) (sampleEvent "second" .dnsTcp .connectionRefused) defaultCadence 0]

/-- The refusal of another run demotes it. -/
theorem active_demotion_guarded_refusedOnce :
    ∃ (row : Node ℚ) (applied : TestEventApplied ℚ),
      row.seenLifecycle = .active ∧ applied.lifecycleState = .probation ∧
      TwoRunsFailed (ownHistory row.id (history (refusedOnce ++ [.applyTestEvent (hours 241)
        (sampleEvent "third" .dnsTcp .connectionRefused) defaultCadence 0]))) ∧
      F64.lt applied.healthScore (F64.ofRat (35 / 100)) = true := by
  have hfound : ((Store.empty.writes refusedOnce).findNode "node").map Node.seenLifecycle =
      some .active := by decide +kernel
  have hok : ((Store.empty.writes refusedOnce).applyTestEvent (hours 241)
      (sampleEvent "third" .dnsTcp .connectionRefused) defaultCadence 0).toOption.map
        (fun r => r.2.lifecycleState) = some .probation := by decide +kernel
  obtain ⟨row, found, active⟩ := Option.map_eq_some_iff.mp hfound
  cases ok : (Store.empty.writes refusedOnce).applyTestEvent (hours 241)
      (sampleEvent "third" .dnsTcp .connectionRefused) defaultCadence 0 with
  | error e => simp [ok, Except.toOption] at hok
  | ok r =>
    have lowered : r.2.lifecycleState = .probation := by simpa [ok, Except.toOption] using hok
    obtain ⟨two, -, low⟩ := active_demotion_guarded refusedOnce found active (by decide)
      (ok.trans rfl : _ = .ok (r.1, r.2)) (by simp [lowered])
    exact ⟨row, r.2, active, lowered, two, low⟩

end ProxyFleet
