import ProxyFleet.OutageEvidence

/-!
# Demotion by an outage

An outage takes a row out of `ACTIVE` when the residence is over and less than 35 % of the
weight is positive, and out of `PROBATION` when less than 15 % is. A row in `PROBATION` whose
failures have faded beside its earlier successes goes back to `ACTIVE`. All of it is
computed from the row, the earlier events and the failures, before the first run.
-/
namespace ProxyFleet

namespace SustainedOutage

section Weight

variable (o : SustainedOutage ℝ)

/-- What is left at one run of the failure of an earlier one. -/
noncomputable def failureWeight (k i : ℕ) : ℝ :=
  decay (delta (F := ℝ) (o.runs i).stage (o.runs i).failureClass false).beta
    (o.dueTime k - o.dueTime i)
    (delta (F := ℝ) (o.runs i).stage (o.runs i).failureClass false).halfLife

/-- The decayed weight of the failures that a run of the outage is judged by. -/
noncomputable def outageWeight (k : ℕ) : ℝ :=
  ((o.countedRuns k).map (o.failureWeight k)).sum

/-- What is left of the positive weight from before the outage. -/
noncomputable def priorAlpha (k : ℕ) : ℝ :=
  ((o.priorEvidence k).map fun e =>
    decay e.evidenceAlpha (o.dueTime k - e.occurredAt) e.halfLife).sum

/-- What is left of the negative weight from before the outage. -/
noncomputable def priorBeta (k : ℕ) : ℝ :=
  ((o.priorEvidence k).map fun e =>
    decay e.evidenceBeta (o.dueTime k - e.occurredAt) e.halfLife).sum

/-- The totals that a run is judged by. -/
noncomputable def alpha (k : ℕ) : ℝ := min (1 + o.priorAlpha k) (maxEffectiveAlpha : ℚ)

noncomputable def beta (k : ℕ) : ℝ :=
  min (1 + (o.outageWeight k + o.priorBeta k)) (maxEffectiveBeta : ℚ)

variable {o} {k : ℕ} {row : Node ℝ}

theorem failureWeight_nonneg (i : ℕ) : 0 ≤ o.failureWeight k i := by
  apply RealEvidence.decay_nonneg
  have h := RealEvidence.le_iff.mp
    (delta_beta_nonneg (F := ℝ) (o.runs i).stage (o.runs i).failureClass false)
  rwa [RealEvidence.ofRat_eq, Rat.cast_zero] at h

theorem outageWeight_nonneg : 0 ≤ o.outageWeight k := by
  apply List.sum_nonneg
  intro x hx
  obtain ⟨i, -, rfl⟩ := List.mem_map.mp hx
  exact failureWeight_nonneg i

theorem mem_events_of_priorEvidence {e : TestEvent ℝ} (h : e ∈ o.priorEvidence k) :
    e ∈ o.store.events :=
  o.store.mem_events_of_evidence (List.mem_of_mem_take h)

theorem weights_nonneg (logged : o.store.Logged) {e : TestEvent ℝ} (h : e ∈ o.priorEvidence k) :
    0 ≤ e.evidenceAlpha ∧ 0 ≤ e.evidenceBeta := by
  obtain ⟨halpha, hbeta⟩ := logged.weighed e (mem_events_of_priorEvidence h)
  rw [RealEvidence.le_iff, RealEvidence.ofRat_eq, Rat.cast_zero] at halpha hbeta
  exact ⟨halpha, hbeta⟩

theorem one_le_alpha (logged : o.store.Logged) : 1 ≤ o.alpha k := by
  have hsum : 0 ≤ o.priorAlpha k := by
    apply List.sum_nonneg
    intro x hx
    obtain ⟨e, he, rfl⟩ := List.mem_map.mp hx
    exact RealEvidence.decay_nonneg (weights_nonneg logged he).1 _ _
  exact le_min (by linarith) (by norm_num [maxEffectiveAlpha])

theorem one_le_beta (logged : o.store.Logged) : 1 ≤ o.beta k := by
  have hsum : 0 ≤ o.priorBeta k := by
    apply List.sum_nonneg
    intro x hx
    obtain ⟨e, he, rfl⟩ := List.mem_map.mp hx
    exact RealEvidence.decay_nonneg (weights_nonneg logged he).2 _ _
  have hweight := outageWeight_nonneg (o := o) (k := k)
  exact le_min (by linarith) (by norm_num [maxEffectiveBeta])

/-- The half-life of an event survives its conversion to whole seconds. -/
theorem outageEvent_halfLife (i : ℕ) : (o.outageEvent i).halfLife =
    (delta (F := ℝ) (o.runs i).stage (o.runs i).failureClass false).halfLife := by
  show seconds (max (numSeconds (delta (F := ℝ) (o.runs i).stage (o.runs i).failureClass
    false).halfLife) 1) = _
  cases (o.runs i).failureClass <;> cases (o.runs i).stage <;> rfl

/-- The failures of an outage have no positive weight. -/
theorem outageEvent_alpha (i : ℕ) : decay (o.outageEvent i).evidenceAlpha
    (o.dueTime k - (o.outageEvent i).occurredAt) (o.outageEvent i).halfLife = 0 := by
  have hfailure := (unreachable_conclusive (o.failed i)).2.1
  have hzero : (o.outageEvent i).evidenceAlpha = F64.ofRat 0 := delta_alpha false hfailure
  rw [hzero, decay_zero]
  simp [RealEvidence.ofRat_eq]

theorem outageEvent_beta (i : ℕ) : decay (o.outageEvent i).evidenceBeta
    (o.dueTime k - (o.outageEvent i).occurredAt) (o.outageEvent i).halfLife =
      o.failureWeight k i := by
  rw [outageEvent_halfLife]
  rfl

theorem totals_after (h : o.OutageRow k row) (logged : o.store.Logged) :
    (o.after k).totals o.id (o.runs k) = (o.alpha k, o.beta k) := by
  have hone : (F64.ofRat 1 : ℝ) = 1 := by simp [RealEvidence.ofRat_eq]
  have hfold : (((o.after k).store.recordTestEvent (o.dueTime k)
      ((o.runs k).event o.id)).evidence o.id (o.dueTime k)).foldl
        (TestEvent.accumulate (o.dueTime k)) (F64.ofRat 1, F64.ofRat 1) =
      (1 + o.priorAlpha k, 1 + (o.outageWeight k + o.priorBeta k)) := by
    rw [evidence_after h logged, RealEvidence.foldl_accumulate, hone, List.map_append,
      List.map_append, List.sum_append, List.sum_append, List.map_map, List.map_map]
    simp only [Function.comp_def, outageEvent_alpha, outageEvent_beta, List.map_const',
      List.sum_replicate, smul_zero, zero_add]
    rfl
  have htotals : (o.after k).totals o.id (o.runs k) =
      (F64.min (1 + o.priorAlpha k) (F64.ofRat maxEffectiveAlpha),
        F64.min (1 + (o.outageWeight k + o.priorBeta k)) (F64.ofRat maxEffectiveBeta)) := by
    unfold OutageState.totals
    rw [h.clock]
    exact congrArg (fun totals : ℝ × ℝ => (F64.min totals.1 (F64.ofRat maxEffectiveAlpha),
      F64.min totals.2 (F64.ofRat maxEffectiveBeta))) hfold
  rw [htotals, RealEvidence.min_eq, RealEvidence.min_eq]
  rfl

end Weight

section Decision

variable (o : SustainedOutage ℝ)

/-- A run demotes a row that has been `ACTIVE` since the given time. -/
def Demotes (activatedAt : Option Time) (k : ℕ) : Prop :=
  (∃ time, activatedAt = some time ∧ time + o.cadence.activeMinResidence ≤ o.dueTime k) ∧
    13 * o.alpha k < 7 * o.beta k ∧ 2 ≤ asU32 o.row.independentFailureCount + (k + 1)

/-- A run takes a row in `PROBATION` back to `ACTIVE`. -/
def Promotes (k : ℕ) : Prop := 7 * o.beta k ≤ 3 * o.alpha k

/-- A run takes a row in `PROBATION` to `DORMANT`. -/
def Abandons (k : ℕ) : Prop :=
  17 * o.alpha k < 3 * o.beta k ∧ 3 ≤ asU32 o.row.failureStreak + (k + 1)

variable {o} {k : ℕ} {row : Node ℝ}

theorem not_promotes_of_abandons (logged : o.store.Logged) (h : o.Abandons k) :
    ¬ o.Promotes k := by
  have halpha := one_le_alpha (k := k) logged
  have hweight := h.1
  unfold Promotes
  linarith

theorem score_after (h : o.OutageRow k row) (logged : o.store.Logged) :
    ((o.after k).input o.cadence o.id row (o.runs k)).score =
      o.alpha k / (o.alpha k + o.beta k) := by
  have halpha := one_le_alpha (k := k) logged
  have hbeta := one_le_beta (k := k) logged
  show health ((o.after k).totals o.id (o.runs k)).1 ((o.after k).totals o.id (o.runs k)).2 = _
  rw [totals_after h logged]
  exact RealEvidence.health_of_pos (by linarith) (by linarith)

theorem score_lt_iff (h : o.OutageRow k row) (logged : o.store.Logged) (threshold : ℚ) :
    F64.lt ((o.after k).input o.cadence o.id row (o.runs k)).score (F64.ofRat threshold) = true ↔
      o.alpha k < threshold * (o.alpha k + o.beta k) := by
  have halpha := one_le_alpha (k := k) logged
  have hbeta := one_le_beta (k := k) logged
  rw [score_after h logged, RealEvidence.lt_iff, RealEvidence.ofRat_eq,
    div_lt_iff₀ (by linarith)]

theorem promotes_iff (h : o.OutageRow k row) (logged : o.store.Logged) :
    F64.le (F64.ofRat (70 / 100)) ((o.after k).input o.cadence o.id row (o.runs k)).score = true ↔
      o.Promotes k := by
  have halpha := one_le_alpha (k := k) logged
  have hbeta := one_le_beta (k := k) logged
  rw [score_after h logged, RealEvidence.le_iff, RealEvidence.ofRat_eq,
    le_div_iff₀ (by linarith), Promotes]
  push_cast
  constructor <;> intro hle <;> linarith

theorem abandons_iff (h : o.OutageRow k row) (logged : o.store.Logged) :
    F64.lt ((o.after k).input o.cadence o.id row (o.runs k)).score (F64.ofRat (15 / 100)) = true ∧
        3 ≤ ((o.after k).input o.cadence o.id row (o.runs k)).decidedFailureStreak ↔
      o.Abandons k := by
  have hweight : o.alpha k < ((15 / 100 : ℚ) : ℝ) * (o.alpha k + o.beta k) ↔
      17 * o.alpha k < 3 * o.beta k := by
    push_cast
    constructor <;> intro hlt <;> linarith
  have hstreak : 3 ≤ saturatingSucc (min (asU32 o.row.failureStreak + k) u32Max) ↔
      3 ≤ asU32 o.row.failureStreak + (k + 1) := by
    unfold saturatingSucc u32Max
    omega
  rw [score_lt_iff h logged, input_failureStreak (o.failed k), h.streak, hweight, hstreak, Abandons]

theorem demotes_iff (h : o.OutageRow k row) (logged : o.store.Logged) :
    ((o.after k).input o.cadence o.id row (o.runs k)).activeResident = true ∧
        F64.lt ((o.after k).input o.cadence o.id row (o.runs k)).score
          (F64.ofRat (35 / 100)) = true ∧
        2 ≤ ((o.after k).input o.cadence o.id row (o.runs k)).decidedIndependentFailures ↔
      o.Demotes row.activatedAt k := by
  have hweight : o.alpha k < ((35 / 100 : ℚ) : ℝ) * (o.alpha k + o.beta k) ↔
      13 * o.alpha k < 7 * o.beta k := by
    push_cast
    constructor <;> intro hlt <;> linarith
  have hindependent : 2 ≤ saturatingSucc (min (asU32 o.row.independentFailureCount + k) u32Max) ↔
      2 ≤ asU32 o.row.independentFailureCount + (k + 1) := by
    unfold saturatingSucc u32Max
    omega
  have hresident : ((o.after k).input o.cadence o.id row (o.runs k)).activeResident = true ↔
      ∃ time, row.activatedAt = some time ∧
        time + o.cadence.activeMinResidence ≤ o.dueTime k := by
    obtain ⟨-, -, -, hactivated, -⟩ := row.taken_columns (o.after k).clock (o.runs k).leaseUntil
    have hresidence := o.cadence.fromStd_residence (minutes 30)
    rw [h.clock] at hactivated
    simp only [HealthInput.activeResident, OutageState.input, Node.healthInput, hactivated,
      hresidence, h.clock]
    cases row.activatedAt with
    | none => simp
    | some time => simp [le_sub_iff_add_le']
  rw [score_lt_iff h logged, input_independentFailures (o.failed k), if_neg h.unseen,
    h.independent, hweight, hindependent, hresident, Demotes]

end Decision

/-- Where a row is before it is `DORMANT`, with the column `activated_at`. -/
inductive Stay
  | active (activatedAt : Option Time)
  | probation

section Stays

variable (o : SustainedOutage ℝ)

/-- A run ends a stay. -/
def Ends : Stay → ℕ → Prop
  | .active activatedAt, k => o.Demotes activatedAt k
  | .probation, k => o.Promotes k ∨ o.Abandons k

/-- No run ends the stay from one run to another. -/
def Lasts (stay : Stay) (p k : ℕ) : Prop := p ≤ k ∧ ∀ i, p ≤ i → i < k → ¬ o.Ends stay i

/-- A stay begins with the outage or with the run that ends the stay before. -/
inductive Enters : Stay → ℕ → Prop
  | active : o.row.lifecycleState = .active → Enters (.active o.row.activatedAt) 0
  | probation : o.row.lifecycleState = .probation → Enters .probation 0
  | demoted {activatedAt : Option Time} {p k : ℕ} : Enters (.active activatedAt) p →
      o.Lasts (.active activatedAt) p k → o.Demotes activatedAt k → Enters .probation (k + 1)
  | promoted {p k : ℕ} : Enters .probation p → o.Lasts .probation p k → o.Promotes k →
      Enters (.active (some (o.dueTime k))) (k + 1)

/-- Among the first `n` runs is one that takes the row to `DORMANT`. -/
def Collapses (n : ℕ) : Prop :=
  ∃ p k, o.Enters .probation p ∧ o.Lasts .probation p k ∧ o.Abandons k ∧ k < n

/-- The row is where the stay says. -/
def Stay.Of (row : Node ℝ) : Stay → Prop
  | .active activatedAt => row.lifecycleState = .active ∧ row.activatedAt = activatedAt
  | .probation => row.lifecycleState = .probation

variable {o} {k n p : ℕ} {row : Node ℝ} {stay : Stay}

theorem Lasts.refl : o.Lasts stay p p := ⟨le_refl p, fun _ hi hlt => absurd hlt (not_lt.mpr hi)⟩

theorem Lasts.succ (h : o.Lasts stay p k) (stays : ¬ o.Ends stay k) : o.Lasts stay p (k + 1) := by
  refine ⟨Nat.le_succ_of_le h.1, fun i hi hlt => ?_⟩
  rcases Nat.lt_succ_iff_lt_or_eq.mp hlt with hlt | rfl
  · exact h.2 i hi hlt
  · exact stays

/-- One run of a row that is `ACTIVE`. -/
theorem active_next (h : o.OutageRow k row) (logged : o.store.Logged)
    (active : row.lifecycleState = .active) :
    ∃ row', o.OutageRow (k + 1) row' ∧
      (o.Demotes row.activatedAt k → row'.lifecycleState = .probation) ∧
      (¬ o.Demotes row.activatedAt k →
        row'.lifecycleState = .active ∧ row'.activatedAt = row.activatedAt) := by
  obtain ⟨row', -, hlifecycle, hactivated, hnext⟩ := h.next
  have hdemotes := demotes_iff h logged
  set input := (o.after k).input o.cadence o.id row (o.runs k) with hinput
  have hprior : input.priorLifecycle = .active := (input_priorLifecycle h.tested).trans active
  rw [if_neg fun hchange => hchange.2 active] at hactivated
  by_cases hd : o.Demotes row.activatedAt k
  · obtain ⟨hresident, hscore, hindependent⟩ := hdemotes.mpr hd
    have hprobation : row'.lifecycleState = .probation := by
      rw [hlifecycle, HealthInput.hysteresis, hprior]
      simp [hresident, hscore, hindependent]
    exact ⟨row', hnext (by simp [hprobation]), fun _ => hprobation, fun hnot => absurd hd hnot⟩
  · have hactive : row'.lifecycleState = .active := by
      rw [hlifecycle, HealthInput.hysteresis, hprior]
      by_cases hresident : input.activeResident = true
      · have hkept : ¬ (F64.lt input.score (F64.ofRat (35 / 100)) = true ∧
            2 ≤ input.decidedIndependentFailures) :=
          fun hlow => hd (hdemotes.mp ⟨hresident, hlow⟩)
        simp [hresident, hkept]
      · simp [hresident]
    exact ⟨row', hnext (by simp [hactive]), fun hyes => absurd hyes hd,
      fun _ => ⟨hactive, hactivated⟩⟩

/-- One run of a row in `PROBATION`. -/
theorem probation_next (h : o.OutageRow k row) (logged : o.store.Logged)
    (probation : row.lifecycleState = .probation) :
    ∃ row', (o.after (k + 1)).store.findNode o.id = some row' ∧
      (row'.lifecycleState ≠ .dormant → o.OutageRow (k + 1) row') ∧
      (o.Promotes k →
        row'.lifecycleState = .active ∧ row'.activatedAt = some (o.dueTime k)) ∧
      (o.Abandons k → row'.lifecycleState = .dormant) ∧
      (¬ o.Promotes k → ¬ o.Abandons k → row'.lifecycleState = .probation) := by
  obtain ⟨row', hfound, hlifecycle, hactivated, hnext⟩ := h.next
  have hpromotes := promotes_iff h logged
  have habandons := abandons_iff h logged
  set input := (o.after k).input o.cadence o.id row (o.runs k) with hinput
  have hprior : input.priorLifecycle = .probation := (input_priorLifecycle h.tested).trans probation
  have hdecided : row'.lifecycleState =
      if F64.le (F64.ofRat (70 / 100)) input.score then .active
      else if F64.lt input.score (F64.ofRat (15 / 100)) && 3 ≤ input.decidedFailureStreak then
        .dormant
      else .probation := by
    rw [hlifecycle, HealthInput.hysteresis, hprior]
  refine ⟨row', hfound, hnext, fun hp => ?_, fun ha => ?_, fun hp ha => ?_⟩
  · have hactive : row'.lifecycleState = .active := by rw [hdecided, if_pos (hpromotes.mpr hp)]
    refine ⟨hactive, ?_⟩
    rw [hactivated, if_pos ⟨hactive, by simp [probation]⟩]
  · have hp := not_promotes_of_abandons logged ha
    obtain ⟨hscore, hstreak⟩ := habandons.mpr ha
    rw [hdecided, if_neg (mt hpromotes.mp hp)]
    simp [hscore, hstreak]
  · rw [hdecided, if_neg (mt hpromotes.mp hp), if_neg]
    rw [Bool.and_eq_true, decide_eq_true_iff]
    exact mt habandons.mp ha

/-- A run that does not end a stay leaves the row in it. -/
theorem stay_next (h : o.OutageRow k row) (logged : o.store.Logged) (of : stay.Of row)
    (stays : ¬ o.Ends stay k) : ∃ row', o.OutageRow (k + 1) row' ∧ stay.Of row' := by
  cases stay with
  | active activatedAt =>
    obtain ⟨hactive, rfl⟩ := of
    obtain ⟨row', hrow', -, hkept⟩ := active_next h logged hactive
    exact ⟨row', hrow', hkept stays⟩
  | probation =>
    obtain ⟨hpromotes, habandons⟩ := not_or.mp stays
    obtain ⟨row', -, hnext, -, -, hkept⟩ := probation_next h logged of
    have hprobation := hkept hpromotes habandons
    exact ⟨row', hnext (by simp [hprobation]), hprobation⟩

theorem Lasts.outageRow (lasts : o.Lasts stay p k) (h : ∃ row, o.OutageRow p row ∧ stay.Of row)
    (logged : o.store.Logged) : ∃ row, o.OutageRow k row ∧ stay.Of row := by
  obtain ⟨hle, hstays⟩ := lasts
  induction k, hle using Nat.le_induction with
  | base => exact h
  | succ k hle ih =>
    obtain ⟨row, hrow, hof⟩ := ih fun i hi hlt => hstays i hi (Nat.lt_succ_of_lt hlt)
    exact stay_next hrow logged hof (hstays k hle (Nat.lt_succ_self k))

/-- Each stay is entered by the row itself. -/
theorem Enters.outageRow (h : o.Enters stay p) (logged : o.store.Logged) :
    ∃ row, o.OutageRow p row ∧ stay.Of row := by
  induction h with
  | active active => exact ⟨o.row, o.outageRow_zero, active, rfl⟩
  | probation probation => exact ⟨o.row, o.outageRow_zero, probation⟩
  | demoted _ lasts demotes ih =>
    obtain ⟨row, hrow, hactive, rfl⟩ := lasts.outageRow ih logged
    obtain ⟨row', hrow', hdemoted, -⟩ := active_next hrow logged hactive
    exact ⟨row', hrow', hdemoted demotes⟩
  | promoted _ lasts promotes ih =>
    obtain ⟨row, hrow, hprobation⟩ := lasts.outageRow ih logged
    obtain ⟨row', -, hnext, hpromoted, -, -⟩ := probation_next hrow logged hprobation
    obtain ⟨hactive, hactivated⟩ := hpromoted promotes
    exact ⟨row', hnext (by simp [hactive]), hactive, hactivated⟩

theorem Collapses.dormant (h : o.Collapses n) (logged : o.store.Logged) :
    o.lifecycleAfter n = some .dormant := by
  obtain ⟨p, k, enters, lasts, abandons, hlt⟩ := h
  obtain ⟨row, hrow, hprobation⟩ := lasts.outageRow (enters.outageRow logged) logged
  obtain ⟨row', hfound, -, -, hdormant, -⟩ := probation_next hrow logged hprobation
  exact dormant_of_le (Option.map_eq_some_iff.mpr ⟨row', hfound, hdormant abandons⟩) hlt

variable (n) in
/-- After any number of runs the row is in a stay, if no run has taken it to `DORMANT`. -/
theorem stays_or_collapses (logged : o.store.Logged) :
    (∃ row stay p, o.OutageRow n row ∧ stay.Of row ∧ o.Enters stay p ∧ o.Lasts stay p n) ∨
      o.Collapses n := by
  induction n with
  | zero =>
    left
    rcases o.prior with h | h
    · exact ⟨o.row, .active o.row.activatedAt, 0, o.outageRow_zero, ⟨h, rfl⟩, .active h, .refl⟩
    · exact ⟨o.row, .probation, 0, o.outageRow_zero, h, .probation h, .refl⟩
  | succ n ih =>
    rcases ih with ⟨row, stay, p, hrow, hof, enters, lasts⟩ | ⟨p, k, enters, lasts, abandons, hlt⟩
    · by_cases hends : o.Ends stay n
      · cases stay with
        | active activatedAt =>
          obtain ⟨hactive, rfl⟩ := hof
          obtain ⟨row', hrow', hdemoted, -⟩ := active_next hrow logged hactive
          exact .inl ⟨row', .probation, n + 1, hrow', hdemoted hends,
            .demoted enters lasts hends, .refl⟩
        | probation =>
          rcases hends with promotes | abandons
          · obtain ⟨row', -, hnext, hpromoted, -, -⟩ := probation_next hrow logged hof
            have hactive := hpromoted promotes
            have hnext' := hnext (by simp [hactive.1])
            exact .inl ⟨row', .active (some (o.dueTime n)), n + 1, hnext', hactive,
              .promoted enters lasts promotes, .refl⟩
          · exact .inr ⟨p, n, enters, lasts, abandons, Nat.lt_succ_self n⟩
      · obtain ⟨row', hrow', hof'⟩ := stay_next hrow logged hof hends
        exact .inl ⟨row', stay, p, hrow', hof', enters, lasts.succ hends⟩
    · exact .inr ⟨p, k, enters, lasts, abandons, Nat.lt_succ_of_lt hlt⟩

end Stays

end SustainedOutage

end ProxyFleet
