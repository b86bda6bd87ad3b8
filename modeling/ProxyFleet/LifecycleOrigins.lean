import ProxyFleet.SurvivingRows

/-!
# The states behind a row

A claim and a port wait hide the state that a row returns to. A row is within a set of states
when its own state and every state that it can return to belong to the set. Sets that hold the
states of ordinary work are left through retirement or an invalid configuration alone.
-/
namespace ProxyFleet

/-- The states that stand for an earlier one. -/
def LifecycleState.Passing (state : LifecycleState) : Prop :=
  state = .testing ∨ state = .waitingForPort

/-- The states of ordinary work belong to the set. -/
def OpenStates (allowed : LifecycleState → Prop) : Prop :=
  ∀ state, state ≠ .invalid → state ≠ .retired → allowed state

variable {F : Type} {allowed : LifecycleState → Prop} {row : Node F}

/-- The state of the row, and the state it returns to from a test or from waiting, is allowed. -/
structure Node.Within (allowed : LifecycleState → Prop) (row : Node F) : Prop where
  lifecycle : allowed row.lifecycleState
  status : allowed row.status
  testing : row.lifecycleState.Passing → ∀ state, row.testingFromState = some state →
    allowed state
  waiting : row.lifecycleState.Passing → ∀ state, row.waitingFromState = some state →
    allowed state

/-- A row whose state stands for itself is within every set that holds it. -/
theorem Node.within_of_settled {state : LifecycleState} (hlifecycle : row.lifecycleState = state)
    (hstatus : row.status = state) (hpassing : ¬ state.Passing) (h : allowed state) :
    row.Within allowed where
  lifecycle := hlifecycle ▸ h
  status := hstatus ▸ h
  testing := fun hrow => absurd (hlifecycle ▸ hrow) hpassing
  waiting := fun hrow => absurd (hlifecycle ▸ hrow) hpassing

variable [F64 F]

theorem Node.within_ingested (states : OpenStates allowed) (now : Time) (proxy : ParsedProxy)
    (newId : String) (generation : ℤ) :
    (Node.ingested now proxy newId generation : Node F).Within allowed := by
  have hpassing : ¬ LifecycleState.candidate.Passing := by simp [LifecycleState.Passing]
  exact Node.within_of_settled rfl rfl hpassing (states .candidate (by decide) (by decide))

/-- The arms of a lifecycle keep it or lead to a state of its own. -/
theorem hysteresis_cases (i : HealthInput F) :
    i.hysteresis = i.priorLifecycle ∨ i.hysteresis = .active ∨ i.hysteresis = .probation ∨
      i.hysteresis = .dormant := by
  unfold HealthInput.hysteresis
  cases i.priorLifecycle with
  | active | probation | dormant =>
    dsimp only
    split_ifs <;> simp
  | retired | invalid | waitingForPort | testing | candidate => exact .inl rfl

/-- A decision keeps the prior state, leads to a state of ordinary work that stands for itself,
or answers an invalid configuration. -/
theorem decidedLifecycle_cases (i : HealthInput F) :
    i.decidedLifecycle = i.priorLifecycle ∨
      i.decidedLifecycle ∈ [LifecycleState.active, .probation, .dormant] ∨
      i.failureClass = .invalidConfig ∧ i.decidedLifecycle = .invalid := by
  unfold HealthInput.decidedLifecycle
  split
  · next hinvalid =>
    rcases hinvalid with hclass | hprior
    · exact .inr (.inr ⟨hclass, rfl⟩)
    · exact .inl hprior.symm
  · split
    · next hprior => exact .inl hprior.symm
    · split
      · exact .inr (.inl (by simp))
      · obtain h | h | h | h := hysteresis_cases i
        · exact .inl h
        · exact .inr (.inl (by simp [h]))
        · exact .inr (.inl (by simp [h]))
        · exact .inr (.inl (by simp [h]))

section Within

variable (states : OpenStates allowed) (h : row.Within allowed)

include h

omit [F64 F]

theorem Node.Within.seenLifecycle : allowed row.seenLifecycle ∧
    (row.seenLifecycle.Passing → row.lifecycleState.Passing) := by
  unfold Node.seenLifecycle
  split
  · next htesting =>
    refine ⟨?_, fun _ => .inl htesting⟩
    cases hfrom : row.testingFromState with
    | none => exact h.status
    | some state => exact h.testing (.inl htesting) state hfrom
  · exact ⟨h.lifecycle, fun hpassing => hpassing⟩

theorem Node.Within.released (htesting : row.lifecycleState = .testing) :
    row.released.Within allowed where
  lifecycle := by
    cases hfrom : row.testingFromState with
    | none => simpa [Node.released, hfrom] using h.lifecycle
    | some state => simpa [Node.released, hfrom] using h.testing (.inl htesting) state hfrom
  status := by
    cases hfrom : row.testingFromState with
    | none => simpa [Node.released, hfrom] using h.status
    | some state => simpa [Node.released, hfrom] using h.testing (.inl htesting) state hfrom
  testing := by
    rintro - state hstate
    cases hstate
  waiting := fun _ => h.waiting (.inl htesting)

include states

theorem Node.Within.claimed (leaseUntil : Time) : (row.claimed leaseUntil).Within allowed where
  lifecycle := states .testing (by decide) (by decide)
  status := states .testing (by decide) (by decide)
  testing := by
    rintro - state hstate
    obtain rfl := Option.some.inj hstate
    split
    · next hwaiting =>
      cases hfrom : row.waitingFromState with
      | none => exact states .candidate (by decide) (by decide)
      | some state => exact h.waiting (.inr hwaiting) state hfrom
    · exact h.lifecycle
  waiting := by
    rintro - state hstate
    cases hstate

theorem Node.Within.waits (now retryAfter : Time) :
    (row.waiting now retryAfter).Within allowed where
  lifecycle := states .waitingForPort (by decide) (by decide)
  status := states .waitingForPort (by decide) (by decide)
  testing := by
    rintro - state hstate
    cases hstate
  waiting := by
    rintro - state hstate
    obtain rfl := Option.some.inj hstate
    exact h.lifecycle

theorem Node.Within.reingested (now : Time) (proxy : ParsedProxy) (generation : ℤ) :
    (row.reingested now proxy generation).Within allowed := by
  by_cases hretired : row.lifecycleState = .retired
  · exact Node.within_of_settled (if_pos hretired) (if_pos hretired)
      (by simp [LifecycleState.Passing]) (states .candidate (by decide) (by decide))
  · have hstate : (row.reingested now proxy generation).lifecycleState = row.lifecycleState :=
      if_neg hretired
    have hstatus : (row.reingested now proxy generation).status = row.status := if_neg hretired
    exact ⟨hstate ▸ h.lifecycle, hstatus ▸ h.status, hstate ▸ h.testing, hstate ▸ h.waiting⟩

end Within

theorem Node.Within.applied (states : OpenStates allowed) (h : row.Within allowed)
    {event : TestEventInput F} (hclass : event.failureClass = .invalidConfig → allowed .invalid)
    (totals : F × F) (cadence : Cadence) (now : Time) (draw : ℕ) :
    (row.applyEvent totals event cadence now draw).Within allowed := by
  obtain ⟨hseen, hpassing⟩ := h.seenLifecycle
  obtain hkept | hwork | ⟨hinvalid, hdecided⟩ :=
    decidedLifecycle_cases (row.healthInput totals event cadence now)
  · have hstate : (row.applyEvent totals event cadence now draw).lifecycleState =
        row.seenLifecycle := hkept
    have hstatus : (row.applyEvent totals event cadence now draw).status =
        row.seenLifecycle := hkept
    refine ⟨hstate ▸ hseen, hstatus ▸ hseen, ?_,
      fun hlifecycle => h.waiting (hpassing (hstate ▸ hlifecycle))⟩
    rintro - state hnone
    cases hnone
  · simp only [List.mem_cons, List.not_mem_nil, or_false] at hwork
    rcases hwork with hactive | hprobation | hdormant
    · exact Node.within_of_settled hactive hactive (by simp [LifecycleState.Passing])
        (states .active (by decide) (by decide))
    · exact Node.within_of_settled hprobation hprobation (by simp [LifecycleState.Passing])
        (states .probation (by decide) (by decide))
    · exact Node.within_of_settled hdormant hdormant (by simp [LifecycleState.Passing])
        (states .dormant (by decide) (by decide))
  · exact Node.within_of_settled hdecided hdecided (by simp [LifecycleState.Passing])
      (hclass hinvalid)

/-- The write applies no invalid configuration to the node. -/
def Write.KeepsValid (id : String) : Write F → Prop
  | .applyTestEvent _ event _ _ => event.proxyId = id → event.failureClass ≠ .invalidConfig
  | _ => True

/-- A step keeps a row within its states, or it retires the row in a reconciliation. -/
theorem Node.Within.step (states : OpenStates allowed) {s : Store F} {w : Write F}
    {row' : Node F} (h : row.Within allowed) (hvalid : allowed .invalid ∨ w.KeepsValid row.id)
    (hstep : RowStep s w row row') :
    row'.Within allowed ∨ ∃ now generation minimum, w = .reconcile now generation minimum ∧
      (row.retirable now minimum = true ∨
        row.missedBy generation = true ∧ row.missed.retirable now minimum = true) := by
  cases hstep with
  | kept | scheduled | port | metadata | seenAgain | missed | seeded =>
    exact .inl ⟨h.lifecycle, h.status, h.testing, h.waiting⟩
  | @reingested now proxy newId generation => exact .inl (h.reingested states now proxy generation)
  | @claimed now leaseUntil => exact .inl (h.claimed states leaseUntil)
  | @applied now event cadence draw _ own =>
    exact .inl (h.applied states (fun hclass => hvalid.resolve_right fun hw => hw own.symm hclass)
      _ cadence now draw)
  | released _ _ testing => exact .inl (h.released testing)
  | @waiting now id retryAfter => exact .inl (h.waits states now retryAfter)
  | @missedRetired now generation minimum _ unseen out =>
    exact .inr ⟨now, generation, minimum, rfl, .inr ⟨unseen, out⟩⟩
  | @retired now generation minimum _ seen out =>
    exact .inr ⟨now, generation, minimum, rfl, .inl out⟩
  | dormantRevived | revived =>
    have hpassing : ¬ LifecycleState.probation.Passing := by simp [LifecycleState.Passing]
    exact .inl (Node.within_of_settled rfl rfl hpassing
      (states .probation (by decide) (by decide)))

end ProxyFleet
