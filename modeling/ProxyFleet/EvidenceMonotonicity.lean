import ProxyFleet.EvidenceWindows
import ProxyFleet.RealEvidence

/-!
# Monotone evidence

A new event adds its weight to the newest events of its node. As long as the window has
room, a success cannot lower the score and a failure cannot raise it. Once it is
full, the event also takes away the weight of the one that it pushes out.
-/
namespace ProxyFleet

open RealEvidence SortedWindows

namespace Store

variable {F : Type} (s : Store F)

/-- The event that leaves the window when a new one is recorded. -/
def pushedOut [F64 F] (now : Time) (event : TestEventInput F) : Option (TestEvent F) :=
  let recent := s.recentEvents event.proxyId now
  let entry := event.recorded s.events.length now
  if recent.countP (fun e => decide (e.NewerFirst entry)) < maxEvidenceEventsPerNode then
    (recent.insertionSort TestEvent.NewerFirst)[maxEvidenceEventsPerNode - 1]?
  else none

end Store

/-- What is left of the positive weight of an event. -/
noncomputable def TestEvent.positive (now : Time) (e : TestEvent ℝ) : ℝ :=
  decay e.evidenceAlpha (now - e.occurredAt) e.halfLife

noncomputable def TestEvent.negative (now : Time) (e : TestEvent ℝ) : ℝ :=
  decay e.evidenceBeta (now - e.occurredAt) e.halfLife

/-- The positive evidence of a node whose events weigh `weight` in all. -/
noncomputable def effectiveAlpha (weight : ℝ) : ℝ := min (1 + weight) 24

noncomputable def effectiveBeta (weight : ℝ) : ℝ := min (1 + weight) 64

namespace Store

variable (s : Store ℝ)

noncomputable def positive (proxyId : String) (now : Time) : ℝ :=
  ((s.evidence proxyId now).map (TestEvent.positive now)).sum

noncomputable def negative (proxyId : String) (now : Time) : ℝ :=
  ((s.evidence proxyId now).map (TestEvent.negative now)).sum

/-- The score of a node as it is recomputed from the log of events. -/
noncomputable def score (proxyId : String) (now : Time) : ℝ :=
  health (s.effectiveEvidence proxyId now).1 (s.effectiveEvidence proxyId now).2

/-- A recorded event moves the score in its own direction. -/
structure MonotoneAt (now : Time) (event : TestEventInput ℝ) : Prop where
  success : event.failureClass = .success →
    s.score event.proxyId now ≤ (s.recordTestEvent now event).score event.proxyId now
  failure : event.failureClass.conclusiveFailure = true →
    (s.recordTestEvent now event).score event.proxyId now ≤ s.score event.proxyId now
  inconclusive : event.failureClass.inconclusive = true →
    (s.recordTestEvent now event).score event.proxyId now = s.score event.proxyId now

/-- The new event makes up for lost weights: the ratio of positive to negative evidence does
not move against it when its own weight comes in and the others go. -/
structure Compensates (now : Time) (event : TestEventInput ℝ) (lostPositive lostNegative : ℝ) :
    Prop where
  success : event.failureClass = .success →
    effectiveAlpha (s.positive event.proxyId now) *
        effectiveBeta (s.negative event.proxyId now - lostNegative) ≤
      effectiveAlpha (s.positive event.proxyId now +
          (delta event.stage event.failureClass event.fastDownload).alpha - lostPositive) *
        effectiveBeta (s.negative event.proxyId now)
  failure : event.failureClass.conclusiveFailure = true →
    effectiveAlpha (s.positive event.proxyId now - lostPositive) *
        effectiveBeta (s.negative event.proxyId now) ≤
      effectiveAlpha (s.positive event.proxyId now) *
        effectiveBeta (s.negative event.proxyId now +
          (delta event.stage event.failureClass event.fastDownload).beta - lostNegative)
  inconclusive : event.failureClass.inconclusive = true →
    effectiveAlpha (s.positive event.proxyId now - lostPositive) *
        effectiveBeta (s.negative event.proxyId now) =
      effectiveAlpha (s.positive event.proxyId now) *
        effectiveBeta (s.negative event.proxyId now - lostNegative)

end Store

section Scores

variable {a b a' b' : ℝ}

/-- A share grows with the ratio of its parts. -/
theorem health_le_iff (ha : 0 < a) (hb : 0 < b) (ha' : 0 < a') (hb' : 0 < b') :
    health a b ≤ health a' b' ↔ a * b' ≤ a' * b := by
  rw [health_of_pos ha hb, health_of_pos ha' hb', div_le_div_iff₀ (by linarith) (by linarith)]
  constructor <;> intro h <;> linarith

theorem health_eq_iff (ha : 0 < a) (hb : 0 < b) (ha' : 0 < a') (hb' : 0 < b') :
    health a' b' = health a b ↔ a' * b = a * b' := by
  rw [le_antisymm_iff, health_le_iff ha' hb' ha hb, health_le_iff ha hb ha' hb',
    le_antisymm_iff]

theorem effectiveAlpha_pos {weight : ℝ} (h : 0 ≤ weight) : 0 < effectiveAlpha weight :=
  lt_min (by linarith) (by norm_num)

theorem effectiveBeta_pos {weight : ℝ} (h : 0 ≤ weight) : 0 < effectiveBeta weight :=
  lt_min (by linarith) (by norm_num)

theorem effectiveAlpha_mono {w v : ℝ} (h : w ≤ v) : effectiveAlpha w ≤ effectiveAlpha v :=
  min_le_min_right 24 (by linarith)

theorem effectiveBeta_mono {w v : ℝ} (h : w ≤ v) : effectiveBeta w ≤ effectiveBeta v :=
  min_le_min_right 64 (by linarith)

end Scores

namespace Store

variable (s : Store ℝ) (now : Time) (event : TestEventInput ℝ)

theorem decayed_nonneg (value : ℝ) (elapsed halfLife : Time) :
    0 ≤ decay value elapsed halfLife := by
  rcases le_or_gt 0 value with h | h
  · exact RealEvidence.decay_nonneg h elapsed halfLife
  · have hle : F64.le value (F64.ofRat 0) = true := by
      rw [le_iff, ofRat_eq, Rat.cast_zero]
      exact h.le
    rw [decay, hle, Bool.true_or, if_pos rfl, max_eq, ofRat_eq, Rat.cast_zero]
    exact le_max_right value 0

theorem positive_nonneg (proxyId : String) : 0 ≤ s.positive proxyId now := by
  apply List.sum_nonneg
  intro w hw
  obtain ⟨e, -, rfl⟩ := List.mem_map.mp hw
  exact decayed_nonneg ..

theorem negative_nonneg (proxyId : String) : 0 ≤ s.negative proxyId now := by
  apply List.sum_nonneg
  intro w hw
  obtain ⟨e, -, rfl⟩ := List.mem_map.mp hw
  exact decayed_nonneg ..

/-- The score of a node in terms of the weights of its newest events. -/
theorem score_eq (proxyId : String) : s.score proxyId now =
    health (effectiveAlpha (s.positive proxyId now)) (effectiveBeta (s.negative proxyId now)) := by
  have hone : (F64.ofRat 1 : ℝ) = 1 := by norm_num [ofRat_eq]
  unfold score effectiveEvidence
  rw [hone, RealEvidence.foldl_accumulate]
  simp only [min_alpha_eq, min_beta_eq]
  rfl

theorem alpha_nonneg : 0 ≤ (delta (F := ℝ) event.stage event.failureClass
    event.fastDownload).alpha := by
  simpa [le_iff, ofRat_eq] using
    delta_alpha_nonneg (F := ℝ) event.stage event.failureClass event.fastDownload

theorem beta_nonneg : 0 ≤ (delta (F := ℝ) event.stage event.failureClass
    event.fastDownload).beta := by
  simpa [le_iff, ofRat_eq] using
    delta_beta_nonneg (F := ℝ) event.stage event.failureClass event.fastDownload

/-- A new event has not aged. -/
theorem positive_recorded (number : ℕ) : (event.recorded number now).positive now =
    (delta event.stage event.failureClass event.fastDownload).alpha :=
  decay_of_nonpos (alpha_nonneg event) (sub_self now).le _

theorem negative_recorded (number : ℕ) : (event.recorded number now).negative now =
    (delta event.stage event.failureClass event.fastDownload).beta :=
  decay_of_nonpos (beta_nonneg event) (sub_self now).le _

variable {s now event}

theorem pushedOut_of_reached (h : s.Reached now event) : s.pushedOut now event =
    ((s.recentEvents event.proxyId now).insertionSort TestEvent.NewerFirst)[
      maxEvidenceEventsPerNode - 1]? := if_pos h

/-- The weights of the window after the new event: its own comes in, and that of the event
it pushes out goes. -/
theorem sum_evidence_of_reached (h : s.Reached now event) (weight : TestEvent ℝ → ℝ) :
    (((s.recordTestEvent now event).evidence event.proxyId now).map weight).sum +
        ((s.pushedOut now event).map weight).getD 0 =
      ((s.evidence event.proxyId now).map weight).sum +
        weight (event.recorded s.events.length now) := by
  rw [evidence_eq, evidence_eq, recentEvents_recordTestEvent, pushedOut_of_reached h]
  exact sum_take_insertionSort_concat weight h

/-- What the pushed out event takes away of both weights. -/
noncomputable def lostWeight (s : Store ℝ) (now : Time) (event : TestEventInput ℝ)
    (weight : TestEvent ℝ → ℝ) : ℝ := ((s.pushedOut now event).map weight).getD 0

theorem positive_of_reached (h : s.Reached now event) :
    (s.recordTestEvent now event).positive event.proxyId now =
      s.positive event.proxyId now +
        (delta event.stage event.failureClass event.fastDownload).alpha -
        s.lostWeight now event (TestEvent.positive now) := by
  rw [← positive_recorded now event s.events.length]
  exact eq_sub_of_add_eq (sum_evidence_of_reached h _)

theorem negative_of_reached (h : s.Reached now event) :
    (s.recordTestEvent now event).negative event.proxyId now =
      s.negative event.proxyId now +
        (delta event.stage event.failureClass event.fastDownload).beta -
        s.lostWeight now event (TestEvent.negative now) := by
  rw [← negative_recorded now event s.events.length]
  exact eq_sub_of_add_eq (sum_evidence_of_reached h _)

/-- Only a failure carries negative weight. -/
theorem beta_of_success (h : event.failureClass = .success) :
    (delta (F := ℝ) event.stage event.failureClass event.fastDownload).beta = 0 := by
  rw [h]
  cases event.stage <;> cases event.fastDownload <;> simp [delta, ofRat_eq]

theorem alpha_of_not_success (h : event.failureClass ≠ .success) :
    (delta (F := ℝ) event.stage event.failureClass event.fastDownload).alpha = 0 := by
  rw [delta_alpha event.fastDownload h, ofRat_eq, Rat.cast_zero]

theorem beta_of_inconclusive (h : event.failureClass.inconclusive = true) :
    (delta (F := ℝ) event.stage event.failureClass event.fastDownload).beta = 0 := by
  cases hc : event.failureClass <;> simp [hc, FailureClass.inconclusive] at h <;>
    simp [delta, ofRat_eq]

/-- An event that reaches the window moves the score in its own direction exactly if it
makes up for what it pushes out. -/
theorem monotoneAt_iff_of_reached (h : s.Reached now event) :
    s.MonotoneAt now event ↔
      s.Compensates now event (s.lostWeight now event (TestEvent.positive now))
        (s.lostWeight now event (TestEvent.negative now)) := by
  have hA := effectiveAlpha_pos (s.positive_nonneg now event.proxyId)
  have hB := effectiveBeta_pos (s.negative_nonneg now event.proxyId)
  have hA' := effectiveAlpha_pos
    ((s.recordTestEvent now event).positive_nonneg now event.proxyId)
  have hB' := effectiveBeta_pos
    ((s.recordTestEvent now event).negative_nonneg now event.proxyId)
  have hle := health_le_iff hA hB hA' hB'
  have hge := health_le_iff hA' hB' hA hB
  have heq := health_eq_iff hA hB hA' hB'
  rw [← score_eq, ← score_eq, positive_of_reached h, negative_of_reached h] at hle hge heq
  constructor
  · intro hm
    refine ⟨fun hc => ?_, fun hc => ?_, fun hc => ?_⟩
    · have hbeta := beta_of_success hc
      rw [hbeta, add_zero] at hle
      exact hle.mp (hm.success hc)
    · have halpha := alpha_of_not_success (FailureClass.conclusiveFailure_iff.mp hc).1
      rw [halpha, add_zero] at hge
      exact hge.mp (hm.failure hc)
    · have halpha := alpha_of_not_success (FailureClass.ne_success_of_inconclusive hc)
      rw [halpha, beta_of_inconclusive hc, add_zero, add_zero] at heq
      exact heq.mp (hm.inconclusive hc)
  · intro hm
    refine ⟨fun hc => ?_, fun hc => ?_, fun hc => ?_⟩
    · have hbeta := beta_of_success hc
      rw [hbeta, add_zero] at hle
      exact hle.mpr (hm.success hc)
    · have halpha := alpha_of_not_success (FailureClass.conclusiveFailure_iff.mp hc).1
      rw [halpha, add_zero] at hge
      exact hge.mpr (hm.failure hc)
    · have halpha := alpha_of_not_success (FailureClass.ne_success_of_inconclusive hc)
      rw [halpha, beta_of_inconclusive hc, add_zero, add_zero] at heq
      exact heq.mpr (hm.inconclusive hc)

/-- Without a loss every event makes up for it. -/
theorem compensates_zero (s : Store ℝ) (now : Time) (event : TestEventInput ℝ) :
    s.Compensates now event 0 0 := by
  have hA := effectiveAlpha_pos (s.positive_nonneg now event.proxyId)
  have hB := effectiveBeta_pos (s.negative_nonneg now event.proxyId)
  refine ⟨fun _ => ?_, fun _ => ?_, fun _ => ?_⟩
  · rw [sub_zero, sub_zero]
    apply mul_le_mul_of_nonneg_right _ hB.le
    exact effectiveAlpha_mono (le_add_of_nonneg_right (alpha_nonneg event))
  · rw [sub_zero, sub_zero]
    apply mul_le_mul_of_nonneg_left _ hA.le
    exact effectiveBeta_mono (le_add_of_nonneg_right (beta_nonneg event))
  · rw [sub_zero, sub_zero]

/-- Evidence is monotone exactly if the new event makes up for the one that it pushes out of
a full window, if there is one. -/
theorem evidence_monotone_iff (s : Store ℝ) (now : Time) (event : TestEventInput ℝ) :
    s.MonotoneAt now event ↔ ∀ d, s.pushedOut now event = some d →
      s.Compensates now event (d.positive now) (d.negative now) := by
  by_cases hr : s.Reached now event
  · rw [monotoneAt_iff_of_reached hr]
    unfold lostWeight
    cases hp : s.pushedOut now event with
    | none =>
      constructor
      · intro _ d hd
        cases hd
      · intro _
        exact s.compensates_zero now event
    | some d =>
      constructor
      · rintro hc _ ⟨⟩
        exact hc
      · intro hc
        exact hc d rfl
  · have hnone : s.pushedOut now event = none := if_neg hr
    have hsame : (s.recordTestEvent now event).score event.proxyId now =
        s.score event.proxyId now := by
      simp only [score_eq, positive, negative, evidence_of_not_reached hr]
    constructor
    · intro _ d hd
      rw [hnone] at hd
      cases hd
    · intro _
      exact ⟨fun _ => hsame.ge, fun _ => hsame.le, fun _ => hsame⟩

end Store

section FullWindow

/-- A fast download, and 511 tests after it that were inconclusive. -/
def standingDownload : TestEvent ℝ where
  id := 1
  proxyId := "n"
  runId := "download"
  occurredAt := 0
  stage := .download
  failureClass := .success
  evidenceAlpha := 8
  evidenceBeta := 0
  halfLifeSeconds := 86400

def overloadedTest (i : ℕ) : TestEvent ℝ where
  id := i + 2
  proxyId := "n"
  runId := "overload-" ++ toString i
  occurredAt := 0
  stage := .relay
  failureClass := .localOverload
  evidenceAlpha := 0
  evidenceBeta := 0
  halfLifeSeconds := 7200

def fullWindow : Store ℝ where
  events := standingDownload :: (List.range 511).map overloadedTest

def relaySuccess : TestEventInput ℝ where
  proxyId := "n"
  runId := "relay"
  stage := .relay
  failureClass := .success

theorem recentEvents_fullWindow : fullWindow.recentEvents "n" 0 = fullWindow.events := by
  have hdays : (0 : ℤ) - days 30 ≤ 0 := by norm_num [days, hours, minutes, seconds]
  apply List.filter_eq_self.mpr
  intro e he
  rcases List.mem_cons.mp he with rfl | he
  · exact decide_eq_true hdays
  · obtain ⟨i, -, rfl⟩ := List.mem_map.mp he
    exact decide_eq_true hdays

theorem sorted_fullWindow : fullWindow.events.insertionSort TestEvent.NewerFirst =
    ((List.range 511).map overloadedTest).reverse ++ [standingDownload] := by
  rw [insertionSort_eq_reverse, fullWindow, List.reverse_cons]
  have hlater : ∀ a b : TestEvent ℝ, a.occurredAt = b.occurredAt → a.id < b.id →
      ¬ a.NewerFirst b := by
    rintro a b htime hid (hlt | ⟨-, hle⟩)
    · exact absurd htime hlt.ne'
    · omega
  apply List.pairwise_cons.mpr
  constructor
  · intro e he
    obtain ⟨i, -, rfl⟩ := List.mem_map.mp he
    exact hlater _ _ rfl (by simp [standingDownload, overloadedTest])
  · rw [List.pairwise_map]
    apply List.Pairwise.imp _ List.pairwise_lt_range
    intro i j hij
    exact hlater _ _ rfl (by simpa [overloadedTest] using hij)

theorem evidence_fullWindow : fullWindow.evidence "n" 0 =
    ((List.range 511).map overloadedTest).reverse ++ [standingDownload] := by
  rw [Store.evidence_eq, recentEvents_fullWindow, sorted_fullWindow]
  apply List.take_of_length_le
  simp [maxEvidenceEventsPerNode]

theorem sum_fullWindow (weight : TestEvent ℝ → ℝ) (h : ∀ i, weight (overloadedTest i) = 0) :
    ((fullWindow.evidence "n" 0).map weight).sum = weight standingDownload := by
  have hzero : ((((List.range 511).map overloadedTest).reverse).map weight).sum = 0 := by
    apply List.sum_eq_zero
    intro x hx
    simp only [List.mem_map, List.mem_reverse] at hx
    obtain ⟨e, ⟨i, -, rfl⟩, rfl⟩ := hx
    exact h i
  rw [evidence_fullWindow, List.map_append, List.sum_append, hzero, zero_add]
  simp

theorem reached_fullWindow : fullWindow.Reached 0 relaySuccess := by
  have hnone : (fullWindow.recentEvents "n" 0).countP (fun e =>
      decide (e.NewerFirst (relaySuccess.recorded fullWindow.events.length 0))) = 0 := by
    rw [List.countP_eq_zero, recentEvents_fullWindow]
    intro e he
    have hid : e.occurredAt = 0 ∧ e.id < 513 := by
      rcases List.mem_cons.mp he with rfl | he
      · exact ⟨rfl, by simp [standingDownload]⟩
      · obtain ⟨i, hi, rfl⟩ := List.mem_map.mp he
        have := List.mem_range.mp hi
        exact ⟨rfl, by simp only [overloadedTest]; omega⟩
    simp only [decide_eq_true_eq]
    rintro (hlt | ⟨-, hle⟩)
    · exact absurd hid.1 hlt.ne'
    · simp only [TestEventInput.recorded, fullWindow, List.length_cons, List.length_map,
        List.length_range] at hle
      omega
  exact lt_of_eq_of_lt hnone (by norm_num [maxEvidenceEventsPerNode])

theorem pushedOut_fullWindow : fullWindow.pushedOut 0 relaySuccess = some standingDownload := by
  have hid : relaySuccess.proxyId = "n" := rfl
  have hlast : maxEvidenceEventsPerNode - 1 = 511 := rfl
  rw [Store.pushedOut_of_reached reached_fullWindow, hid, hlast, recentEvents_fullWindow,
    sorted_fullWindow, List.getElem?_append_right (by simp)]
  simp

/-- The success pushes the download out of the window and takes the score down with it. -/
theorem success_lowers_score : relaySuccess.failureClass = .success ∧
    fullWindow.score "n" 0 = 9 / 10 ∧
    (fullWindow.recordTestEvent 0 relaySuccess).score "n" 0 = 2 / 3 ∧
    ¬ fullWindow.MonotoneAt 0 relaySuccess := by
  have hdownload : standingDownload.positive 0 = 8 ∧ standingDownload.negative 0 = 0 :=
    ⟨decay_of_nonpos (by norm_num [standingDownload]) (le_refl 0) _,
      decay_of_nonpos (by norm_num [standingDownload]) (le_refl 0) _⟩
  have hquiet : ∀ i, (overloadedTest i).positive 0 = 0 ∧ (overloadedTest i).negative 0 = 0 :=
    fun i => ⟨decay_of_nonpos (le_refl 0) (le_refl 0) _, decay_of_nonpos (le_refl 0) (le_refl 0) _⟩
  have hA : fullWindow.positive "n" 0 = 8 :=
    (sum_fullWindow _ fun i => (hquiet i).1).trans hdownload.1
  have hB : fullWindow.negative "n" 0 = 0 :=
    (sum_fullWindow _ fun i => (hquiet i).2).trans hdownload.2
  have hA' : (fullWindow.recordTestEvent 0 relaySuccess).positive "n" 0 = 1 := by
    refine (Store.positive_of_reached reached_fullWindow).trans ?_
    show fullWindow.positive "n" 0 + (delta .relay .success false).alpha - _ = 1
    rw [hA, Store.lostWeight, pushedOut_fullWindow]
    norm_num [hdownload.1, delta, ofRat_eq]
  have hB' : (fullWindow.recordTestEvent 0 relaySuccess).negative "n" 0 = 0 := by
    refine (Store.negative_of_reached reached_fullWindow).trans ?_
    show fullWindow.negative "n" 0 + (delta .relay .success false).beta - _ = 0
    rw [hB, Store.lostWeight, pushedOut_fullWindow]
    norm_num [hdownload.2, delta, ofRat_eq]
  have hbefore : fullWindow.score "n" 0 = 9 / 10 := by
    rw [Store.score_eq, hA, hB, health_of_pos (effectiveAlpha_pos (by norm_num))
      (effectiveBeta_pos (by norm_num))]
    norm_num [effectiveAlpha, effectiveBeta]
  have hafter : (fullWindow.recordTestEvent 0 relaySuccess).score "n" 0 = 2 / 3 := by
    rw [Store.score_eq, hA', hB', health_of_pos (effectiveAlpha_pos (by norm_num))
      (effectiveBeta_pos (by norm_num))]
    norm_num [effectiveAlpha, effectiveBeta]
  refine ⟨rfl, hbefore, hafter, fun hm => ?_⟩
  have hle := hm.success rfl
  change fullWindow.score "n" 0 ≤ (fullWindow.recordTestEvent 0 relaySuccess).score "n" 0 at hle
  rw [hbefore, hafter] at hle
  norm_num at hle

end FullWindow

end ProxyFleet
