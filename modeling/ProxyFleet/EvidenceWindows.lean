import ProxyFleet.SortedWindows
import ProxyFleet.TestEventApplication

/-!
# Windows on the evidence

A test is judged by the newest events of its node. A new event takes its place among
them, and where the window is full, the last one leaves for it. An event without weight
thus changes no total beside what it pushes out.
-/
namespace ProxyFleet

open SortedWindows

variable {F : Type}

instance : IsTrans (TestEvent F) TestEvent.NewerFirst where
  trans a b c hab hbc := by
    rcases hab with hab | ⟨hab, hid⟩ <;> rcases hbc with hbc | ⟨hbc, hid'⟩
    · exact .inl (hbc.trans hab)
    · exact .inl (hbc ▸ hab)
    · exact .inl (hab ▸ hbc)
    · exact .inr ⟨hbc.trans hab, hid'.trans hid⟩

instance : Std.Total (TestEvent.NewerFirst (F := F)) where
  total a b := by
    rcases lt_trichotomy a.occurredAt b.occurredAt with hlt | heq | hlt
    · exact .inr (.inl hlt)
    · rcases le_total b.id a.id with hid | hid
      · exact .inl (.inr ⟨heq.symm, hid⟩)
      · exact .inr (.inr ⟨heq, hid⟩)
    · exact .inl (.inl hlt)

variable [F64 F]

/-- The entry of the event log for the event. -/
def TestEventInput.recorded (event : TestEventInput F) (number : ℕ) (now : Time) : TestEvent F where
  id := number + 1
  proxyId := event.proxyId
  runId := event.runId
  occurredAt := now
  stage := event.stage
  failureClass := event.failureClass
  evidenceAlpha := (delta event.stage event.failureClass event.fastDownload).alpha
  evidenceBeta := (delta event.stage event.failureClass event.fastDownload).beta
  halfLifeSeconds :=
    numSeconds (delta (F := F) event.stage event.failureClass event.fastDownload).halfLife

theorem events_recordTestEvent (s : Store F) (now : Time) (event : TestEventInput F) :
    (s.recordTestEvent now event).events = s.events ++ [event.recorded s.events.length now] := rfl

namespace Store

/-- The events of the node in the last thirty days. -/
def recentEvents (s : Store F) (proxyId : String) (now : Time) : List (TestEvent F) :=
  s.events.filter fun e => e.proxyId = proxyId && decide (now - days 30 ≤ e.occurredAt)

/-- The new event comes among the newest of its node. -/
def Reached (s : Store F) (now : Time) (event : TestEventInput F) : Prop :=
  ((s.recentEvents event.proxyId now).countP fun e =>
    decide (e.NewerFirst (event.recorded s.events.length now))) < maxEvidenceEventsPerNode

instance (s : Store F) (now : Time) (event : TestEventInput F) : Decidable (s.Reached now event) :=
  inferInstanceAs (Decidable (_ < _))

/-- What the window keeps of the events before a new one. -/
def standing (s : Store F) (now : Time) (event : TestEventInput F) : List (TestEvent F) :=
  if s.Reached now event then (s.evidence event.proxyId now).take (maxEvidenceEventsPerNode - 1)
  else s.evidence event.proxyId now

variable (s : Store F) (now : Time) (event : TestEventInput F)

omit [F64 F] in
theorem evidence_eq (proxyId : String) : s.evidence proxyId now =
    ((s.recentEvents proxyId now).insertionSort TestEvent.NewerFirst).take
      maxEvidenceEventsPerNode := rfl

omit [F64 F] in
theorem mem_events_of_evidence {proxyId : String} {now : Time} {e : TestEvent F}
    (h : e ∈ s.evidence proxyId now) : e ∈ s.events :=
  List.mem_of_mem_filter ((List.mem_insertionSort _).mp (List.mem_of_mem_take h))

/-- A recorded event is the last of the recent events of its node. -/
theorem recentEvents_recordTestEvent :
    (s.recordTestEvent now event).recentEvents event.proxyId now =
      s.recentEvents event.proxyId now ++ [event.recorded s.events.length now] := by
  have hdays : (0 : ℤ) ≤ days 30 := by norm_num [days, hours, minutes, seconds]
  rw [recentEvents, events_recordTestEvent, List.filter_append]
  simp [recentEvents, TestEventInput.recorded, hdays]

variable {s now event}

theorem evidence_of_not_reached (h : ¬ s.Reached now event) :
    (s.recordTestEvent now event).evidence event.proxyId now = s.evidence event.proxyId now := by
  rw [evidence_eq, evidence_eq, recentEvents_recordTestEvent]
  exact take_insertionSort_concat (not_lt.mp h)

/-- The new event stands somewhere among the events that the window keeps. -/
theorem evidence_of_reached (h : s.Reached now event) :
    ∃ before behind, s.standing now event = before ++ behind ∧
      (s.recordTestEvent now event).evidence event.proxyId now =
        before ++ event.recorded s.events.length now :: behind := by
  obtain ⟨before, behind, hold, hnew⟩ := exists_take_insertionSort_concat h
  refine ⟨before, behind, ?_, ?_⟩
  · rw [standing, if_pos h, evidence_eq, List.take_take, min_eq_left (Nat.sub_le _ _), hold]
  · rw [evidence_eq, recentEvents_recordTestEvent, hnew]

end Store

end ProxyFleet
