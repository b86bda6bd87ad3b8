import ProxyFleet.InconclusiveEvents
import ProxyFleet.RealEvidence
import ProxyFleet.SustainedOutage

/-!
# The evidence of an outage

The newest events of the last month are what a failure is judged by. The failures of an
outage are newer than everything before it. Earlier events fill what they leave of the
window, and nothing from its 512th run on.
-/
namespace ProxyFleet

open SortedWindows

variable {F : Type} [F64 F]

/-- The event log hands out its numbers in order, and no entry has a negative weight. -/
structure Store.Logged (s : Store F) : Prop where
  numbered : ∀ e ∈ s.events, e.id ≤ s.events.length
  weighed : ∀ e ∈ s.events, e.Weighed

theorem Store.Logged.write [F64.Lawful F] {s : Store F} (h : s.Logged) (w : Write F) :
    (s.write w).Logged := by
  refine ⟨?_, weighed_write h.weighed w⟩
  obtain ⟨now, event, cadence, draw, -, -, hevents⟩ | ⟨-, hevents⟩ := s.events_write w
  · intro e he
    rw [hevents, events_recordTestEvent] at he ⊢
    rw [List.length_append, List.length_singleton]
    rcases List.mem_append.mp he with he | he
    · exact Nat.le_succ_of_le (h.numbered e he)
    · rw [List.mem_singleton.mp he]
      exact le_refl _
  · intro e he
    rw [hevents] at he ⊢
    exact h.numbered e he

theorem Store.Logged.writes [F64.Lawful F] {s : Store F} (noEvents : s.events = [])
    (ws : List (Write F)) : (s.writes ws).Logged := by
  refine ObservedRuns.run_preserves (I := Store.Logged) (fun _ w h => h.write w) ⟨?_, ?_⟩ ws
  · intro e he
    rw [noEvents] at he
    cases he
  · intro e he
    rw [noEvents] at he
    cases he

namespace SustainedOutage

variable (o : SustainedOutage F)

/-- The runs whose failures are of the last month. -/
def recentRuns (k : ℕ) : List ℕ :=
  (List.range (k + 1)).filter fun i => decide (o.dueTime k - days 30 ≤ o.dueTime i)

/-- The runs whose failures are among the newest events of the last month, newest first. -/
def countedRuns (k : ℕ) : List ℕ :=
  ((List.range (k + 1)).reverse.take maxEvidenceEventsPerNode).filter fun i =>
    decide (o.dueTime k - days 30 ≤ o.dueTime i)

/-- The events from before the outage that a run still finds in the window. -/
def priorEvidence (k : ℕ) : List (TestEvent F) :=
  (o.store.evidence o.id (o.dueTime k)).take (maxEvidenceEventsPerNode - (k + 1))

variable {o} {k : ℕ} {row : Node F}

/-- Neither an event from before the outage nor an earlier one of it is newer. -/
theorem not_newerFirst_outageEvent {e : TestEvent F} {j : ℕ}
    (time : e.occurredAt ≤ (o.outageEvent j).occurredAt) (number : e.id < (o.outageEvent j).id) :
    ¬ TestEvent.NewerFirst e (o.outageEvent j) := by
  rintro (hlt | ⟨-, hle⟩)
  · exact absurd hlt (not_lt.mpr time)
  · omega

theorem events_recorded (h : o.OutageRow k row) :
    ((o.after k).store.recordTestEvent (o.dueTime k) ((o.runs k).event o.id)).events =
      o.store.events ++ (List.range (k + 1)).map o.outageEvent := by
  rw [events_recordTestEvent, h.events, List.range_succ, List.map_append, ← List.append_assoc]
  congr 2
  simp [outageEvent]

/-- The recent events are those before the outage and the recent failures of it. -/
theorem recentEvents_recorded (h : o.OutageRow k row) :
    ((o.after k).store.recordTestEvent (o.dueTime k) ((o.runs k).event o.id)).recentEvents o.id
        (o.dueTime k) =
      o.store.recentEvents o.id (o.dueTime k) ++ (o.recentRuns k).map o.outageEvent := by
  unfold Store.recentEvents recentRuns
  rw [events_recorded h, List.filter_append, List.filter_map]
  congr 2
  apply List.filter_congr
  intro i _
  have hown : decide ((o.outageEvent i).proxyId = o.id) = true := decide_eq_true rfl
  show (decide ((o.outageEvent i).proxyId = o.id) &&
    decide (o.dueTime k - days 30 ≤ (o.outageEvent i).occurredAt)) = _
  rw [hown, Bool.true_and]
  rfl

omit [F64 F] in
theorem le_start_of_recentEvents {e : TestEvent F} {now : Time}
    (h : e ∈ o.store.recentEvents o.id now) : now - days 30 ≤ e.occurredAt ∧
      e.occurredAt ≤ o.start := by
  obtain ⟨hmem, hrecent⟩ := List.mem_filter.mp h
  simp only [Bool.and_eq_true, decide_eq_true_eq] at hrecent
  exact ⟨hrecent.2, o.past e hmem hrecent.1⟩

/-- Nothing from before the outage is newer than a failure of it. -/
theorem outage_later (logged : o.store.Logged) : ∀ x ∈ o.store.recentEvents o.id (o.dueTime k),
    ∀ y ∈ (o.recentRuns k).map o.outageEvent, ¬ TestEvent.NewerFirst x y := by
  intro x hx y hy
  obtain ⟨i, -, rfl⟩ := List.mem_map.mp hy
  apply not_newerFirst_outageEvent
  · exact (le_start_of_recentEvents hx).2.trans (o.dueTime_mono (Nat.zero_le i))
  · have hnumber := logged.numbered x (List.mem_of_mem_filter hx)
    show x.id < o.store.events.length + i + 1
    omega

/-- The failures of an outage are recorded oldest first. -/
theorem outage_ordered :
    ((o.recentRuns k).map o.outageEvent).Pairwise fun x y => ¬ TestEvent.NewerFirst x y := by
  apply List.pairwise_map.mpr
  apply List.Pairwise.filter
  refine List.pairwise_lt_range.imp fun {i j} hij => ?_
  apply not_newerFirst_outageEvent
  · exact o.dueTime_mono hij.le
  · show o.store.events.length + i + 1 < o.store.events.length + j + 1
    omega

theorem take_recentRuns :
    ((o.recentRuns k).map o.outageEvent).reverse.take maxEvidenceEventsPerNode =
      (o.countedRuns k).map o.outageEvent := by
  have hfalling : (List.range (k + 1)).reverse.Pairwise fun x y =>
      decide (o.dueTime k - days 30 ≤ o.dueTime y) = true →
        decide (o.dueTime k - days 30 ≤ o.dueTime x) = true := by
    rw [List.pairwise_reverse]
    refine List.pairwise_lt_range.imp fun {i j} hij hi => ?_
    exact decide_eq_true ((of_decide_eq_true hi).trans (o.dueTime_mono hij.le))
  simp only [recentRuns, countedRuns, ← List.map_reverse, ← List.filter_reverse, ← List.map_take]
  rw [take_filter hfalling]

/-- The failures leave the room that they would leave if none of them were too old. -/
theorem take_recentEvents :
    ((o.store.recentEvents o.id (o.dueTime k)).insertionSort TestEvent.NewerFirst).take
        (maxEvidenceEventsPerNode - ((o.recentRuns k).map o.outageEvent).length) =
      o.priorEvidence k := by
  rw [priorEvidence, Store.evidence_eq, List.take_take, min_eq_left (Nat.sub_le _ _)]
  by_cases hall : ∀ i ∈ List.range (k + 1), o.dueTime k - days 30 ≤ o.dueTime i
  · have hkeep : o.recentRuns k = List.range (k + 1) :=
      List.filter_eq_self.mpr fun i hi => decide_eq_true (hall i hi)
    rw [hkeep, List.length_map, List.length_range]
  · -- Where a failure of the outage is too old, so is everything before it.
    push Not at hall
    obtain ⟨i, -, hi⟩ := hall
    have hnone : o.store.recentEvents o.id (o.dueTime k) = [] := by
      apply List.eq_nil_iff_forall_not_mem.mpr
      intro e he
      obtain ⟨hrecent, hpast⟩ := le_start_of_recentEvents he
      exact absurd (hrecent.trans (hpast.trans (o.dueTime_mono (Nat.zero_le i)))) (not_le.mpr hi)
    rw [hnone, List.insertionSort_nil, List.take_nil, List.take_nil]

/-- The window of a run shows the failures of the outage and then the events before it. -/
theorem evidence_after (h : o.OutageRow k row) (logged : o.store.Logged) :
    ((o.after k).store.recordTestEvent (o.dueTime k) ((o.runs k).event o.id)).evidence o.id
        (o.dueTime k) = (o.countedRuns k).map o.outageEvent ++ o.priorEvidence k := by
  rw [Store.evidence_eq, recentEvents_recorded h,
    take_insertionSort_append (outage_later logged) outage_ordered, take_recentRuns,
    take_recentEvents]

end SustainedOutage

end ProxyFleet
