import ProxyFleet.LibraryReaders
import ProxyFleet.ProbeBatches

/-!
# Spent budgets as evidence

A probe whose deadline passed before its first request through Xray says nothing about the
proxy, and neither does a stage that made no network attempt because the deadline had passed.
The events of a probe respect this exactly when the deadline lies behind a few moments: the
checks of the budget before the resolver, the connection, the first request and the first
download, and the ends of a failed resolution, connection and start.
-/
namespace ProxyFleet

section Harm

variable {F : Type} {deadline : ℕ} {outcome : ProbeOutcome F} {steps : List ProbeStep}

/-- The moment of the first request through Xray, or that of the end of a probe without. -/
def ProbeOutcome.relayedAt (outcome : ProbeOutcome F) : ℕ :=
  (outcome.steps.findSome? ProbeStep.relayedAt).getD outcome.endedAt

/-- A stage that the deadline kept from every network attempt. -/
def ProbeOutcome.Idle (outcome : ProbeOutcome F) (stage : TestStage) : Prop :=
  (∃ now, .expired stage now ∈ outcome.steps) ∧ ∀ now, .attempt stage now ∉ outcome.steps

/-- A spent budget is no evidence against the proxy. -/
structure Harmless (deadline : ℕ) (outcome : ProbeOutcome F) : Prop where
  late : deadline ≤ outcome.relayedAt → ∀ e ∈ outcome.events, e.failureClass.inconclusive = true
  idle : ∀ stage, outcome.Idle stage → ∀ e ∈ outcome.events, e.stage = stage →
    e.failureClass.conclusiveFailure = false

theorem harmless_of_inconclusive
    (h : ∀ e ∈ outcome.events, e.failureClass.inconclusive = true) : Harmless deadline outcome where
  late _ := h
  idle _ _ e he _ := FailureClass.not_conclusiveFailure_of_inconclusive (h e he)

/-- Each stage that was stopped by the deadline had made an attempt. -/
def Tried (steps : List ProbeStep) : Prop :=
  ∀ stage now, .expired stage now ∈ steps → ∃ now, .attempt stage now ∈ steps

theorem Tried.append {others : List ProbeStep} (h : Tried steps) (hothers : Tried others) :
    Tried (steps ++ others) := by
  intro stage now hexpired
  rcases List.mem_append.mp hexpired with hexpired | hexpired
  · obtain ⟨now, hattempt⟩ := h stage now hexpired
    exact ⟨now, List.mem_append_left _ hattempt⟩
  · obtain ⟨now, hattempt⟩ := hothers stage now hexpired
    exact ⟨now, List.mem_append_right _ hattempt⟩

theorem StageSteps.tried {stage : TestStage} {now : ℕ}
    (h : StageSteps stage [.attempt stage now] steps) : Tried steps := by
  obtain ⟨added, rfl, hadded⟩ := h
  intro other later hexpired
  rcases List.mem_append.mp hexpired with hexpired | hexpired
  · exact absurd hexpired (by simp)
  · obtain rfl : other = stage := hadded _ hexpired
    exact ⟨now, List.mem_cons_self⟩

theorem harmless_of_tried (hrelayed : outcome.relayedAt < deadline)
    (htried : Tried outcome.steps) : Harmless deadline outcome where
  late h := absurd h (Nat.not_le.mpr hrelayed)
  idle stage hidle := by
    obtain ⟨⟨now, hexpired⟩, hnone⟩ := hidle
    obtain ⟨now, hattempt⟩ := htried stage now hexpired
    exact absurd hattempt (hnone now)

/-- A probe that failed before its first request through Xray. -/
structure FailedUnrelayed (deadline : ℕ) (outcome : ProbeOutcome F) : Prop where
  conclusive : ∃ e ∈ outcome.events, e.failureClass.inconclusive = false
  unrelayed : ∀ step ∈ outcome.steps, step.relayedAt = none
  expired : ∀ stage now, .expired stage now ∈ outcome.steps → deadline ≤ outcome.endedAt

theorem FailedUnrelayed.harmless_iff (h : FailedUnrelayed deadline outcome) :
    Harmless deadline outcome ↔ outcome.endedAt < deadline := by
  have hrelayed : outcome.relayedAt = outcome.endedAt := by
    rw [ProbeOutcome.relayedAt, List.findSome?_eq_none_iff.mpr h.unrelayed, Option.getD_none]
  constructor
  · intro hharmless
    obtain ⟨e, he, hclass⟩ := h.conclusive
    by_contra hlate
    have hinconclusive := hharmless.late (hrelayed ▸ Nat.not_lt.mp hlate) e he
    rw [hclass] at hinconclusive
    exact absurd hinconclusive (by decide)
  · intro hended
    refine harmless_of_tried (hrelayed ▸ hended) fun stage now hexpired => ?_
    exact absurd (h.expired stage now hexpired) (Nat.not_le.mpr hended)

theorem relayedAt_of_attempt {front added : List ProbeStep} {now : ℕ}
    (hsteps : outcome.steps = front ++ .attempt .relay now :: added)
    (hfront : ∀ step ∈ front, step.relayedAt = none) : outcome.relayedAt = now := by
  rw [ProbeOutcome.relayedAt, hsteps, List.findSome?_append,
    List.findSome?_eq_none_iff.mpr hfront]
  rfl

/-- Steps before Xray that all are attempts. -/
def Attempts (steps : List ProbeStep) : Prop := ∀ step ∈ steps, ∃ now, step = .attempt .dnsTcp now

theorem Attempts.unrelayed (h : Attempts steps) : ∀ step ∈ steps, step.relayedAt = none := by
  intro step hstep
  obtain ⟨now, rfl⟩ := h step hstep
  rfl

theorem Attempts.not_expired (h : Attempts steps) (stage : TestStage) (now : ℕ) :
    .expired stage now ∉ steps := by
  intro hexpired
  obtain ⟨_, heq⟩ := h _ hexpired
  simp at heq

theorem Attempts.tried (h : Attempts steps) : Tried steps :=
  fun stage now hexpired => absurd hexpired (h.not_expired stage now)

theorem Attempts.concat (h : Attempts steps) (now : ℕ) :
    Attempts (steps ++ [.attempt .dnsTcp now]) := by
  intro step hstep
  rcases List.mem_append.mp hstep with hstep | hstep
  · exact h step hstep
  · exact ⟨now, List.mem_singleton.mp hstep⟩

theorem failed_of_attempts {e : ProbeEvent F} {endedAt : ℕ}
    (hclass : e.failureClass.inconclusive = false) (h : Attempts steps) :
    FailedUnrelayed deadline ⟨[e], steps, endedAt⟩ where
  conclusive := ⟨e, List.mem_singleton_self e, hclass⟩
  unrelayed := h.unrelayed
  expired stage now hexpired := absurd hexpired (h.not_expired stage now)

theorem failed_of_expired {e : ProbeEvent F} {stage : TestStage} {endedAt : ℕ}
    (hclass : e.failureClass.inconclusive = false) (h : Attempts steps)
    (hexpired : deadline ≤ endedAt) :
    FailedUnrelayed deadline ⟨[e], steps ++ [.expired stage endedAt], endedAt⟩ where
  conclusive := ⟨e, List.mem_singleton_self e, hclass⟩
  unrelayed step hstep := by
    rcases List.mem_append.mp hstep with hstep | hstep
    · exact h.unrelayed step hstep
    · obtain rfl := List.mem_singleton.mp hstep
      rfl
  expired _ _ _ := hexpired

theorem harmless_of_relayed {first second : ProbeOutcome F} {now : ℕ}
    {added : List ProbeStep} (hfirst : Attempts first.steps) (hnow : now < deadline)
    (hsteps : second.steps = .attempt .relay now :: added) (htried : Tried second.steps) :
    Harmless deadline (first.andThen second) := by
  have hrelayed : (first.andThen second).relayedAt = now :=
    relayedAt_of_attempt (congrArg (first.steps ++ ·) hsteps) hfirst.unrelayed
  exact harmless_of_tried (hrelayed ▸ hnow) (hfirst.tried.append htried)

end Harm

section Preflight

variable {F : Type} [F64 F] {proxy : ParsedProxy} {config : ProbeConfig F} {deadline : ℕ}
  {view : PreflightView} {outcome : ProbeOutcome F} {steps : List ProbeStep}

/-- The destination is neither an address nor in the cache. -/
def NeedsLookup (proxy : ParsedProxy) (view : PreflightView) : Prop :=
  AddressSyntax.isIpAddr proxy.address.toList = false ∧ view.freshAddresses = none

/-- The resolver gives an address in the time that is granted. -/
def Resolves (deadline : ℕ) (view : PreflightView) : Prop :=
  ∃ first rest, view.lookupHost (min (deadline - view.dnsCheckedAt) (Duration.fromSecs 3)) =
    .answered (.ok (first :: rest))

/-- The destination takes the connection in the time that is granted. -/
def Connects (config : ProbeConfig F) (deadline : ℕ) (view : PreflightView)
    (addresses : Addresses) : Prop :=
  view.connect addresses.first (min (deadline - view.tcpCheckedAt)
    (Duration.fromMillis config.health.relayTimeoutMs)) = .answered (.ok ())

/-- The moments of a preflight at which the budget must not be spent. -/
inductive PreflightMoment (proxy : ParsedProxy) (config : ProbeConfig F) (deadline : ℕ)
    (view : PreflightView) : ℕ → Prop where
  | lookup (hneeds : NeedsLookup proxy view) :
      PreflightMoment proxy config deadline view view.dnsCheckedAt
  | unresolved (hneeds : NeedsLookup proxy view) (hfails : ¬ Resolves deadline view) :
      PreflightMoment proxy config deadline view view.lookupEndedAt
  | connect {steps addresses detail}
      (hresolved : resolveDestination (F := F) proxy.address proxy.port deadline view =
        .ok (steps, addresses, detail)) :
      PreflightMoment proxy config deadline view view.tcpCheckedAt
  | unconnected {steps addresses detail}
      (hresolved : resolveDestination (F := F) proxy.address proxy.port deadline view =
        .ok (steps, addresses, detail)) (hfails : ¬ Connects config deadline view addresses) :
      PreflightMoment proxy config deadline view view.connectEndedAt

/-- A destination that is an address or in the cache is resolved at once. -/
theorem resolveDestination_known (deadline : ℕ) (hknown : ¬ NeedsLookup proxy view) :
    ∃ addresses detail, resolveDestination (F := F) proxy.address proxy.port deadline view =
      .ok ([], addresses, detail) := by
  rw [resolveDestination]
  split
  · exact ⟨_, _, rfl⟩
  · next hname =>
    split
    · exact ⟨_, _, rfl⟩
    · next hfresh => exact absurd ⟨by simpa using hname, hfresh⟩ hknown

theorem resolveDestination_expired (hneeds : NeedsLookup proxy view)
    (hexpired : deadline ≤ view.dnsCheckedAt) :
    resolveDestination (F := F) proxy.address proxy.port deadline view =
      .error ⟨[dnsFailure "global probe deadline exceeded before DNS" "local_resolver"],
        [.expired .dnsTcp view.dnsCheckedAt], view.dnsCheckedAt⟩ := by
  simp only [resolveDestination, hneeds.1, hneeds.2, remainingBudget_eq_none.mpr hexpired]
  rfl

theorem resolveDestination_resolved (hneeds : NeedsLookup proxy view)
    (hchecked : view.dnsCheckedAt < deadline) (hresolves : Resolves deadline view) :
    ∃ addresses, resolveDestination (F := F) proxy.address proxy.port deadline view =
      .ok ([.attempt .dnsTcp view.dnsCheckedAt], addresses, "lookup") := by
  obtain ⟨first, rest, hlookup⟩ := hresolves
  refine ⟨⟨first :: rest, List.cons_ne_nil _ _⟩, ?_⟩
  simp only [resolveDestination, hneeds.1, hneeds.2,
    remainingBudget_eq_some.mpr ⟨hchecked, rfl⟩, hlookup]
  rfl

theorem resolveDestination_unresolved (hneeds : NeedsLookup proxy view)
    (hchecked : view.dnsCheckedAt < deadline) (hfails : ¬ Resolves deadline view) :
    ∃ error, resolveDestination (F := F) proxy.address proxy.port deadline view =
      .error ⟨[dnsFailure error "destination_resolver"],
        [.attempt .dnsTcp view.dnsCheckedAt], view.lookupEndedAt⟩ := by
  simp only [resolveDestination, hneeds.1, hneeds.2,
    remainingBudget_eq_some.mpr ⟨hchecked, rfl⟩, Bool.false_eq_true, if_false]
  split
  · exact ⟨_, rfl⟩
  · next first rest hlookup => exact absurd ⟨first, rest, hlookup⟩ hfails
  · exact ⟨_, rfl⟩
  · exact ⟨_, rfl⟩

section Resolved

variable {addresses : Addresses} {detail : String}

theorem attempts_of_resolved
    (h : resolveDestination (F := F) proxy.address proxy.port deadline view =
      .ok (steps, addresses, detail)) :
    Attempts steps ∧
      (NeedsLookup proxy view → view.dnsCheckedAt < deadline ∧ Resolves deadline view) := by
  by_cases hneeds : NeedsLookup proxy view
  · rcases Nat.lt_or_ge view.dnsCheckedAt deadline with hchecked | hexpired
    · by_cases hresolves : Resolves deadline view
      · obtain ⟨other, hok⟩ := resolveDestination_resolved (F := F) hneeds hchecked hresolves
        rw [hok] at h
        obtain ⟨rfl, -⟩ := Prod.mk.inj (Except.ok.inj h)
        exact ⟨by simp [Attempts], fun _ => ⟨hchecked, hresolves⟩⟩
      · obtain ⟨error, hfailed⟩ := resolveDestination_unresolved (F := F) hneeds hchecked hresolves
        rw [hfailed] at h
        exact absurd h (by simp)
    · rw [resolveDestination_expired hneeds hexpired] at h
      exact absurd h (by simp)
  · obtain ⟨other, source, hok⟩ := resolveDestination_known (F := F) deadline hneeds
    rw [hok] at h
    obtain ⟨rfl, -⟩ := Prod.mk.inj (Except.ok.inj h)
    exact ⟨by simp [Attempts], fun h => absurd h hneeds⟩

theorem preflight_expired
    (h : resolveDestination (F := F) proxy.address proxy.port deadline view =
      .ok (steps, addresses, detail))
    (hexpired : deadline ≤ view.tcpCheckedAt) :
    preflight proxy config deadline view =
      .error ⟨[event .dnsTcp .tcpTimeout (some (view.tcpCheckedAt - view.tcpStarted))
        [("error", .string "global probe deadline exceeded before TCP")]],
        steps ++ [.expired .dnsTcp view.tcpCheckedAt], view.tcpCheckedAt⟩ := by
  simp only [preflight, h, remainingBudget_eq_none.mpr hexpired]

theorem preflight_connected
    (h : resolveDestination (F := F) proxy.address proxy.port deadline view =
      .ok (steps, addresses, detail))
    (hchecked : view.tcpCheckedAt < deadline)
    (hconnects : Connects config deadline view addresses) :
    preflight proxy config deadline view =
      .ok (steps ++ [.attempt .dnsTcp view.tcpCheckedAt]) := by
  rw [Connects] at hconnects
  simp only [preflight, h, remainingBudget_eq_some.mpr ⟨hchecked, rfl⟩, hconnects]

theorem preflight_unconnected
    (h : resolveDestination (F := F) proxy.address proxy.port deadline view =
      .ok (steps, addresses, detail))
    (hchecked : view.tcpCheckedAt < deadline) (hfails : ¬ Connects config deadline view addresses) :
    ∃ e, e.failureClass.inconclusive = false ∧ preflight proxy config deadline view =
      .error ⟨[e], steps ++ [.attempt .dnsTcp view.tcpCheckedAt], view.connectEndedAt⟩ := by
  simp only [preflight, h, remainingBudget_eq_some.mpr ⟨hchecked, rfl⟩]
  split
  · next hok => exact absurd hok hfails
  · next error _ =>
    refine ⟨_, ?_, rfl⟩
    simp only [event]
    split <;> rfl
  · exact ⟨_, rfl, rfl⟩

end Resolved

/-- A preflight that succeeds kept its budget. -/
theorem preflight_ok (h : preflight proxy config deadline view = .ok steps) :
    Attempts steps ∧ ∀ now, PreflightMoment proxy config deadline view now → now < deadline := by
  cases hresolve : resolveDestination (F := F) proxy.address proxy.port deadline view with
  | error outcome =>
    simp only [preflight, hresolve, reduceCtorEq] at h
  | ok resolved =>
    obtain ⟨front, addresses, detail⟩ := resolved
    obtain ⟨hfront, hlookup⟩ := attempts_of_resolved hresolve
    have hchecked : view.tcpCheckedAt < deadline := by
      by_contra hexpired
      rw [preflight_expired hresolve (Nat.not_lt.mp hexpired)] at h
      exact absurd h (by simp)
    have hconnects : Connects config deadline view addresses := by
      by_contra hfails
      obtain ⟨e, -, hfailed⟩ := preflight_unconnected hresolve hchecked hfails
      rw [hfailed] at h
      exact absurd h (by simp)
    rw [preflight_connected hresolve hchecked hconnects] at h
    obtain rfl := Except.ok.inj h
    refine ⟨hfront.concat _, fun now hmoment => ?_⟩
    cases hmoment with
    | lookup hneeds => exact (hlookup hneeds).1
    | unresolved hneeds hfails => exact absurd (hlookup hneeds).2 hfails
    | connect hresolved => exact hchecked
    | unconnected hresolved hfails =>
      obtain ⟨-, rfl, -⟩ : _ ∧ addresses = _ ∧ _ := by
        simpa using hresolve.symm.trans hresolved
      exact absurd hconnects hfails

/-- A preflight that fails kept its budget exactly if it ended before the deadline. -/
theorem preflight_error (h : preflight proxy config deadline view = .error outcome) :
    FailedUnrelayed deadline outcome ∧
      ((∀ now, PreflightMoment proxy config deadline view now → now < deadline) ↔
        outcome.endedAt < deadline) := by
  cases hresolve : resolveDestination (F := F) proxy.address proxy.port deadline view with
  | error failed =>
    obtain rfl : failed = outcome := by
      simpa only [preflight, hresolve, Except.error.injEq] using h
    have hneeds : NeedsLookup proxy view := by
      by_contra hknown
      obtain ⟨addresses, detail, hok⟩ := resolveDestination_known (F := F) deadline hknown
      rw [hok] at hresolve
      exact absurd hresolve (by simp)
    rcases Nat.lt_or_ge view.dnsCheckedAt deadline with hchecked | hexpired
    · have hfails : ¬ Resolves deadline view := by
        intro hresolves
        obtain ⟨addresses, hok⟩ := resolveDestination_resolved (F := F) hneeds hchecked hresolves
        rw [hok] at hresolve
        exact absurd hresolve (by simp)
      obtain ⟨error, hfailed⟩ := resolveDestination_unresolved (F := F) hneeds hchecked hfails
      obtain rfl := Except.error.inj (hresolve.symm.trans hfailed)
      refine ⟨failed_of_attempts rfl (by simp [Attempts]), ?_⟩
      refine ⟨fun hmoments => hmoments _ (.unresolved hneeds hfails), fun hended now hmoment => ?_⟩
      cases hmoment with
      | lookup hneeds => exact hchecked
      | unresolved hneeds hfails => exact hended
      | connect hresolved => exact absurd (hresolve.symm.trans hresolved) (by simp)
      | unconnected hresolved hfails => exact absurd (hresolve.symm.trans hresolved) (by simp)
    · rw [resolveDestination_expired hneeds hexpired] at hresolve
      obtain rfl := Except.error.inj hresolve
      have hnone : Attempts [] := by simp [Attempts]
      refine ⟨failed_of_expired rfl hnone hexpired, ?_⟩
      refine ⟨fun hmoments => hmoments _ (.lookup hneeds), fun hended => ?_⟩
      exact absurd hended (Nat.not_lt.mpr hexpired)
  | ok resolved =>
    obtain ⟨front, addresses, detail⟩ := resolved
    obtain ⟨hfront, hlookup⟩ := attempts_of_resolved hresolve
    rcases Nat.lt_or_ge view.tcpCheckedAt deadline with hchecked | hexpired
    · have hfails : ¬ Connects config deadline view addresses := by
        intro hconnects
        rw [preflight_connected hresolve hchecked hconnects] at h
        exact absurd h (by simp)
      obtain ⟨e, hclass, hfailed⟩ := preflight_unconnected hresolve hchecked hfails
      obtain rfl := Except.error.inj (h.symm.trans hfailed)
      refine ⟨failed_of_attempts hclass (hfront.concat _), ?_⟩
      refine ⟨fun hmoments => hmoments _ (.unconnected hresolve hfails),
        fun hended now hmoment => ?_⟩
      cases hmoment with
      | lookup hneeds => exact (hlookup hneeds).1
      | unresolved hneeds hfails => exact absurd (hlookup hneeds).2 hfails
      | connect hresolved => exact hchecked
      | unconnected hresolved hfails => exact hended
    · rw [preflight_expired hresolve hexpired] at h
      obtain rfl := Except.error.inj h
      refine ⟨failed_of_expired rfl hfront hexpired, ?_⟩
      refine ⟨fun hmoments => hmoments _ (.connect hresolve), fun hended => ?_⟩
      exact absurd hended (Nat.not_lt.mpr hexpired)

end Preflight

section Services

variable {F : Type} [F64 F] {config : ProbeConfig F} {survivor : Survivor} {service : Service}
  {first : ProbeOutcome F}

/-- The quorum is reached and a download follows. -/
def Downloads (config : ProbeConfig F) (survivor : Survivor) (view : RelayView) : Prop :=
  (config.downloadTest.enabled && survivor.downloadDue) = true ∧
    ∃ tally steps, httpProbe config survivor.deadline view = .ok (tally, steps) ∧
      httpQuorum config ≤ tally.successes.length

/-- The moments of a service at which the budget must not be spent. -/
inductive ServiceMoment (config : ProbeConfig F) (survivor : Survivor) : Service → ℕ → Prop where
  | startFailed {error settledAt} :
      ServiceMoment config survivor (.startFailed error settledAt) settledAt
  | request {port view} (hclient : view.client (socksProxy port) = .ok ()) :
      ServiceMoment config survivor (.tested port view) (view.request 0).checkedAt
  | download {port view} (hclient : view.client (socksProxy port) = .ok ())
      (hdownloads : Downloads config survivor view) :
      ServiceMoment config survivor (.tested port view) (view.mirror 0).checkedAt

theorem harmless_undownloaded_iff {view : RelayView} {port : ℕ} {second : ProbeOutcome F}
    (hfirst : Attempts first.steps)
    (hrequest : (view.request 0).checkedAt < survivor.deadline)
    (hsteps : StageSteps .relay [.attempt .relay (view.request 0).checkedAt] second.steps)
    (hnone : ¬ Downloads config survivor view) :
    Harmless survivor.deadline (first.andThen second) ↔
      ∀ now, ServiceMoment config survivor (.tested port view) now → now < survivor.deadline := by
  obtain ⟨added, hadded, -⟩ := id hsteps
  refine ⟨fun _ now hmoment => ?_, fun _ =>
    harmless_of_relayed hfirst hrequest hadded hsteps.tried⟩
  cases hmoment with
  | request hclient => exact hrequest
  | download hclient hdownloads => exact absurd hdownloads hnone

variable [F64Convert F]

section Tested

variable {view : RelayView} {port : ℕ}

/-- The download counts once the first request was made. -/
theorem harmless_download_iff {now : ℕ} {tally : HttpTally F} {steps : List ProbeStep}
    (hfirst : Attempts first.steps) (hnow : now < survivor.deadline)
    (hsteps : StageSteps .relay [.attempt .relay now] steps) :
    Harmless survivor.deadline (first.andThen
      ⟨relayedEvents config tally ++ [(download config survivor.deadline view).2],
        steps ++ (download config survivor.deadline view).1, view.endedAt⟩) ↔
      (view.mirror 0).checkedAt < survivor.deadline := by
  obtain ⟨added, rfl, hadded⟩ := id hsteps
  constructor
  · intro hharmless
    by_contra hexpired
    obtain ⟨hdownload, hstage, hclass⟩ := download_expired config (Nat.not_lt.mp hexpired)
    have hidle : (first.andThen
        ⟨relayedEvents config tally ++ [(download config survivor.deadline view).2],
          [.attempt .relay now] ++ added ++ (download config survivor.deadline view).1,
          view.endedAt⟩).Idle .download := by
      refine ⟨⟨(view.mirror 0).checkedAt, ?_⟩, fun later hattempt => ?_⟩
      · simp [ProbeOutcome.andThen, hdownload]
      · rcases List.mem_append.mp hattempt with hmem | hmem
        · obtain ⟨_, heq⟩ := hfirst _ hmem
          exact absurd heq (by simp)
        · rw [hdownload] at hmem
          rcases List.mem_append.mp hmem with hmem | hmem
          · rcases List.mem_cons.mp hmem with heq | hmem
            · exact absurd heq (by simp)
            · exact absurd (hadded _ hmem) (by simp [ProbeStep.stage])
          · exact absurd hmem (by simp)
    have hconclusive := hharmless.idle .download hidle (download config survivor.deadline view).2
      (by simp [ProbeOutcome.andThen]) hstage
    rw [hclass] at hconclusive
    exact absurd hconclusive (by decide)
  · intro hdownload
    have hall : [.attempt .relay now] ++ added ++ (download config survivor.deadline view).1 =
        .attempt .relay now :: (added ++ (download config survivor.deadline view).1) := by simp
    exact harmless_of_relayed hfirst hnow hall
      (hsteps.tried.append (download_attempted hdownload).tried)

/-- A probe through Xray, by its first request and its first download. -/
theorem harmless_tested_iff (hfirst : Attempts first.steps) :
    Harmless survivor.deadline (first.andThen
      ((Service.tested port view).outcome config survivor)) ↔
      ∀ now, ServiceMoment config survivor (.tested port view) now → now < survivor.deadline := by
  rw [Service.outcome]
  cases hclient : view.client (socksProxy port) with
  | error error =>
    rw [testThroughXray_unbuilt hclient]
    refine ⟨fun _ now hmoment => ?_, fun _ => harmless_of_inconclusive ?_⟩
    · cases hmoment with
      | request hbuilt => exact absurd (hclient.symm.trans hbuilt) (by simp)
      | download hbuilt hdownloads => exact absurd (hclient.symm.trans hbuilt) (by simp)
    · intro e he
      obtain rfl := List.mem_singleton.mp he
      rfl
  | ok _ =>
    rcases Nat.lt_or_ge (view.request 0).checkedAt survivor.deadline with hrequest | hexpired
    · have hends := httpProbe_attempted config hrequest
      cases hprobe : httpProbe config survivor.deadline view with
      | error outcome =>
        rw [hprobe] at hends
        rw [testThroughXray_exceeded hclient hprobe]
        refine harmless_undownloaded_iff hfirst hrequest hends.1 ?_
        rintro ⟨-, tally, steps, hok, -⟩
        exact absurd (hprobe.symm.trans hok) (by simp)
      | ok result =>
        obtain ⟨tally, steps⟩ := result
        rw [hprobe] at hends
        by_cases hdownloads : (config.downloadTest.enabled && survivor.downloadDue) = true ∧
            httpQuorum config ≤ tally.successes.length
        · obtain ⟨hdue, hquorum⟩ := hdownloads
          rw [testThroughXray_downloaded hclient hprobe hdue hquorum,
            harmless_download_iff hfirst hrequest hends]
          refine ⟨fun hdownload now hmoment => ?_, fun hmoments =>
            hmoments _ (.download hclient ⟨hdue, tally, steps, hprobe, hquorum⟩)⟩
          cases hmoment with
          | request hbuilt => exact hrequest
          | download hbuilt hdownloads => exact hdownload
        · have hsteps := testThroughXray_undownloaded hclient hprobe hdownloads
          refine harmless_undownloaded_iff hfirst hrequest (hsteps ▸ hends) ?_
          rintro ⟨hdue, other, others, hok, hquorum⟩
          obtain ⟨rfl, rfl⟩ := Prod.mk.inj (Except.ok.inj (hprobe.symm.trans hok))
          exact hdownloads ⟨hdue, hquorum⟩
    · rw [testThroughXray_exceeded hclient (httpProbe_expired hexpired)]
      have hfailed : FailedUnrelayed survivor.deadline (first.andThen
          ⟨[budgetExceeded ((view.request 0).checkedAt - (view.request 0).started)],
            [.expired .relay (view.request 0).checkedAt], (view.request 0).checkedAt⟩) :=
        failed_of_expired rfl hfirst hexpired
      refine ⟨fun hharmless => ?_, fun hmoments => ?_⟩
      · exact absurd (hfailed.harmless_iff.mp hharmless) (Nat.not_lt.mpr hexpired)
      · exact absurd (hmoments _ (.request hclient)) (Nat.not_lt.mpr hexpired)

end Tested

theorem harmless_service_iff (hfirst : Attempts first.steps) :
    Harmless survivor.deadline (first.andThen (service.outcome config survivor)) ↔
      ∀ now, ServiceMoment config survivor service now → now < survivor.deadline := by
  cases service with
  | overloaded error settledAt =>
    refine ⟨fun _ now hmoment => (nomatch hmoment), fun _ => harmless_of_inconclusive ?_⟩
    intro e he
    obtain rfl := List.mem_singleton.mp he
    rfl
  | startFailed error settledAt =>
    have hfailed : FailedUnrelayed survivor.deadline
        (first.andThen ((Service.startFailed error settledAt).outcome config survivor)) :=
      failed_of_attempts rfl (by simpa [Service.outcome, startFailedOutcome] using hfirst)
    rw [hfailed.harmless_iff]
    refine ⟨fun hended now hmoment => ?_, fun hmoments => hmoments _ .startFailed⟩
    cases hmoment
    exact hended
  | tested port view => exact harmless_tested_iff hfirst

end Services

section Batch

variable {F : Type} [F64 F] {lib : Libraries} {source : String} {config : ProbeConfig F}
  {downloadConcurrency : ℕ} {view : BatchView} {jobs : List ProbeJob} {i : ℕ} {job : ProbeJob}

/-- The moments of a job at which its budget must not be spent, in whatever order the batch
is worked on and however it is split. -/
inductive CriticalMoment (lib : Libraries) (source : String) (config : ProbeConfig F)
    (downloadConcurrency : ℕ) (view : BatchView) (jobs : List ProbeJob) (i : ℕ)
    (job : ProbeJob) : ℕ → Prop where
  | preflight {proxy now} (hparsed : parseShareUrl lib job.rawConfig source = .ok proxy)
      (hmoment : PreflightMoment proxy config (probeDeadline config (view.startedAt i))
        (view.preflight i) now) :
      CriticalMoment lib source config downloadConcurrency view jobs i job now
  | service {survivor service now}
      (hsurvivor : (preflightJob lib source config view i job).survivor = some survivor)
      (hserved : Served lib config view.world
        (batchSurvivors lib source config downloadConcurrency view jobs) survivor service)
      (hmoment : ServiceMoment config survivor service now) :
      CriticalMoment lib source config downloadConcurrency view jobs i job now

theorem lt_probeDeadline (config : ProbeConfig F) (now : ℕ) : now < probeDeadline config now := by
  have hpos : 0 < Duration.fromSecs (max (max config.health.candidateBatchTimeoutSeconds
      config.downloadTest.timeoutSeconds) 1) := Nat.mul_pos (by omega) (by decide)
  rw [probeDeadline]
  omega

/-- How the preflight of a job ends. -/
theorem preflightJob_cases (lib : Libraries) (source : String) (config : ProbeConfig F)
    (view : BatchView) (i : ℕ) (job : ProbeJob) :
    (∃ error, parseShareUrl lib job.rawConfig source = .error error ∧
      (preflightJob lib source config view i job).probed =
        ⟨none, ⟨[event .static .invalidConfig none [("error", .string error)]], [],
          view.startedAt i⟩⟩) ∨
    (∃ proxy outcome, parseShareUrl lib job.rawConfig source = .ok proxy ∧
      preflight proxy config (probeDeadline config (view.startedAt i)) (view.preflight i) =
        .error outcome ∧
      (preflightJob lib source config view i job).probed = ⟨some proxy, outcome⟩) ∨
    (∃ proxy steps, parseShareUrl lib job.rawConfig source = .ok proxy ∧
      preflight proxy config (probeDeadline config (view.startedAt i)) (view.preflight i) =
        .ok steps ∧
      (preflightJob lib source config view i job).probed =
        ⟨some proxy, ⟨[], steps, (view.preflight i).connectEndedAt⟩⟩) := by
  simp only [preflightJob, preflightReport]
  cases hparsed : parseShareUrl lib job.rawConfig source with
  | error error => exact .inl ⟨error, rfl, rfl⟩
  | ok proxy =>
    cases hpreflight : preflight proxy config (probeDeadline config (view.startedAt i))
        (view.preflight i) with
    | error outcome => exact .inr (.inl ⟨proxy, outcome, rfl, hpreflight, by simp [hpreflight]⟩)
    | ok steps => exact .inr (.inr ⟨proxy, steps, rfl, hpreflight, by simp [hpreflight]⟩)

/-- A job that did not survive is judged by its preflight alone. -/
theorem critical_of_settled
    (hsettled : (preflightJob lib source config view i job).survivor = none) {now : ℕ}
    (h : CriticalMoment lib source config downloadConcurrency view jobs i job now) :
    ∃ proxy, parseShareUrl lib job.rawConfig source = .ok proxy ∧
      PreflightMoment proxy config (probeDeadline config (view.startedAt i))
        (view.preflight i) now := by
  cases h with
  | preflight hparsed hmoment => exact ⟨_, hparsed, hmoment⟩
  | service hsurvivor hserved hmoment =>
    rw [hsettled] at hsurvivor
    exact absurd hsurvivor (by simp)

variable [F64Convert F]

/-- A survivor is judged by its service. -/
theorem harmless_served_iff (hids : (jobs.map (·.id)).Nodup) (hjob : jobs[i]? = some job)
    {proxy : ParsedProxy} {first : ProbeOutcome F} {survivor : Survivor} {service : Service}
    (hparsed : parseShareUrl lib job.rawConfig source = .ok proxy)
    (hmoments : ∀ now, PreflightMoment proxy config (probeDeadline config (view.startedAt i))
      (view.preflight i) now → now < probeDeadline config (view.startedAt i))
    (hfirst : (preflightJob lib source config view i job).probed.outcome = first)
    (hattempts : Attempts first.steps)
    (hsurvivor : (preflightJob lib source config view i job).survivor = some survivor)
    (hserved : Served lib config view.world
      (batchSurvivors lib source config downloadConcurrency view jobs) survivor service) :
    Harmless (probeDeadline config (view.startedAt i))
        (first.andThen (service.outcome config survivor)) ↔
      ∀ now, CriticalMoment lib source config downloadConcurrency view jobs i job now →
        now < probeDeadline config (view.startedAt i) := by
  have hdeadline : survivor.deadline = probeDeadline config (view.startedAt i) := by
    obtain ⟨proxy, -, -, rfl⟩ := Preflighted.survivor_eq_some.mp hsurvivor
    rfl
  constructor
  · intro hharmless now hcritical
    cases hcritical with
    | preflight hother hmoment =>
      obtain rfl := Except.ok.inj (hparsed.symm.trans hother)
      exact hmoments now hmoment
    | @service other again _ hother hagain hmoment =>
      obtain rfl := Option.some.inj (hsurvivor.symm.trans hother)
      have hprobed := Option.some.inj ((get_testBatch_served hids hjob hsurvivor hserved).symm.trans
        (get_testBatch_served hids hjob hsurvivor hagain))
      have houtcome : first.andThen (service.outcome config survivor) =
          first.andThen (again.outcome config survivor) := hfirst ▸ congrArg Probed.outcome hprobed
      rw [houtcome, ← hdeadline] at hharmless
      rw [← hdeadline]
      exact (harmless_service_iff hattempts).mp hharmless now hmoment
  · intro hcritical
    rw [← hdeadline] at hcritical ⊢
    exact (harmless_service_iff hattempts).mpr fun now hmoment =>
      hcritical now (.service hsurvivor hserved hmoment)

/-- A spent budget is no evidence against a proxy exactly if the deadline of the job lies
behind its critical moments. -/
theorem spent_budget_harmless_iff (hids : (jobs.map (·.id)).Nodup) (hjob : jobs[i]? = some job) :
    ∃ probed,
      OrderedMap.get (testBatch lib source config downloadConcurrency view jobs) job.id =
        some probed ∧
      (Harmless (probeDeadline config (view.startedAt i)) probed.outcome ↔
        ∀ now, CriticalMoment lib source config downloadConcurrency view jobs i job now →
          now < probeDeadline config (view.startedAt i)) := by
  obtain ⟨error, hparsed, hprobed⟩ | ⟨proxy, outcome, hparsed, hpreflight, hprobed⟩ |
    ⟨proxy, steps, hparsed, hpreflight, hprobed⟩ :=
    preflightJob_cases lib source config view i job
  · have hsettled : (preflightJob lib source config view i job).survivor = none := by
      rw [Preflighted.survivor, hprobed]
    refine ⟨_, get_testBatch_settled hids hjob hsettled, ?_⟩
    rw [hprobed]
    refine ⟨fun _ now hcritical => ?_, fun _ => harmless_of_tried (lt_probeDeadline _ _) ?_⟩
    · obtain ⟨proxy, hother, -⟩ := critical_of_settled hsettled hcritical
      exact absurd (hparsed.symm.trans hother) (by simp)
    · simp [Tried]
  · obtain ⟨hfailed, hmoments⟩ := preflight_error hpreflight
    have hsettled : (preflightJob lib source config view i job).survivor = none := by
      obtain ⟨e, he, -⟩ := hfailed.conclusive
      rw [Preflighted.survivor, hprobed]
      exact if_neg (by simpa using List.ne_nil_of_mem he)
    refine ⟨_, get_testBatch_settled hids hjob hsettled, ?_⟩
    rw [hprobed, hfailed.harmless_iff, ← hmoments]
    refine ⟨fun h now hcritical => ?_, fun h now hmoment => h now (.preflight hparsed hmoment)⟩
    obtain ⟨other, hother, hmoment⟩ := critical_of_settled hsettled hcritical
    obtain rfl := Except.ok.inj (hparsed.symm.trans hother)
    exact h now hmoment
  · obtain ⟨hattempts, hmoments⟩ := preflight_ok hpreflight
    have hsurvivor := Preflighted.survivor_eq_some.mpr
      ⟨proxy, congrArg Probed.proxy hprobed, congrArg (·.outcome.events) hprobed, rfl⟩
    obtain ⟨service, hserved⟩ := exists_served lib config view.world
      (mem_batchSurvivors.mpr ⟨i, job, hjob, hsurvivor⟩)
    refine ⟨_, get_testBatch_served hids hjob hsurvivor hserved, ?_⟩
    rw [hprobed]
    exact harmless_served_iff hids hjob hparsed hmoments (congrArg Probed.outcome hprobed)
      hattempts hsurvivor hserved

end Batch

section Queue

/-- A probe that stalls until the deadline in its first page. -/
def stalledRelay : RelayView where
  client := fun _ => .ok ()
  request := fun i => {
    started := if i = 0 then 2 * 10 ^ 9 else 20 * 10 ^ 9
    checkedAt := if i = 0 then 2 * 10 ^ 9 else 20 * 10 ^ 9
    send := fun _ _ => .answered (.ok ⟨200, [⟨3 * 10 ^ 9, fun _ => .elapsed⟩]⟩)
    endedAt := 20 * 10 ^ 9 }
  mirror := fun _ => ⟨20 * 10 ^ 9, 20 * 10 ^ 9, fun _ _ => .elapsed, 20 * 10 ^ 9⟩
  leftAt := fun _ => 20 * 10 ^ 9
  endedAt := 20 * 10 ^ 9
  checkedAt_le_leftAt := fun _ => Nat.le_refl _

/-- A probe that waited for it in the queue. -/
def queuedRelay : RelayView where
  client := fun _ => .ok ()
  request := fun _ =>
    ⟨20 * 10 ^ 9, 20 * 10 ^ 9, fun _ _ => .answered (.ok ⟨204, []⟩), 21 * 10 ^ 9⟩
  mirror := stalledRelay.mirror
  leftAt := stalledRelay.leftAt
  endedAt := 21 * 10 ^ 9
  checkedAt_le_leftAt := stalledRelay.checkedAt_le_leftAt

def queueConfig : ProbeConfig ℚ := { downloadTest := { timeoutSeconds := 20 } }

def queueView : BatchView where
  startedAt := fun _ => 0
  preflight := fun _ => {
    tcpStarted := 0
    cacheReadAt := 0
    cached := none
    dnsCheckedAt := 0
    lookupHost := fun _ => .elapsed
    lookupEndedAt := 0
    tcpCheckedAt := 0
    connect := fun _ _ => .answered (.ok ())
    connectEndedAt := 10 ^ 9 }
  picks := fun _ => 0
  world := fun _ => {
    scan := ⟨fun _ => false, fun _ => true, fun _ => true⟩
    launch := fun _ => .ok ()
    settledAt := 2 * 10 ^ 9
    picks := fun _ => 0
    probe := fun i => if i = 0 then stalledRelay else queuedRelay }

def stalledJob : ProbeJob := ⟨"first", "trojan://one@192.0.2.1:443".toList, false⟩

def queuedJob : ProbeJob := ⟨"second", "trojan://two@192.0.2.2:443".toList, false⟩

def queueJobs : List ProbeJob := [stalledJob, queuedJob]

/-- A job for an address passes the preflight of the queue. -/
theorem queue_survivor (i : ℕ) (job : ProbeJob) {address : String}
    (hparses : ((parseShareUrl (readerLibraries [] []) job.rawConfig "feed").bind fun proxy =>
      (xrayOutbound (readerLibraries [] []) proxy).map fun _ => proxy.address) = .ok address)
    (haddress : AddressSyntax.isIpAddr address.toList = true) :
    ∃ proxy outbound, xrayOutbound (readerLibraries [] []) proxy = .ok outbound ∧
      (preflightJob (readerLibraries [] []) "feed" queueConfig queueView i job).survivor =
        some ⟨job.id, proxy, probeDeadline queueConfig 0, job.downloadDue⟩ ∧
      (preflightJob (readerLibraries [] []) "feed" queueConfig queueView i job).probed.outcome =
        ⟨[], [.attempt .dnsTcp 0], 10 ^ 9⟩ := by
  obtain ⟨proxy, hparsed, hrendered⟩ := bind_eq_ok.mp hparses
  obtain ⟨outbound, houtbound, rfl⟩ := map_eq_ok.mp hrendered
  have hknown : ¬ NeedsLookup proxy (queueView.preflight i) := by
    rintro ⟨hname, -⟩
    rw [haddress] at hname
    exact absurd hname (by decide)
  obtain ⟨addresses, detail, hresolved⟩ :=
    resolveDestination_known (F := ℚ) (probeDeadline queueConfig 0) hknown
  have hpreflight : preflight proxy queueConfig (probeDeadline queueConfig 0)
      (queueView.preflight i) = .ok ([] ++ [.attempt .dnsTcp 0]) :=
    preflight_connected hresolved (lt_probeDeadline _ 0) rfl
  have hprobed : (preflightJob (readerLibraries [] []) "feed" queueConfig queueView i job).probed =
      ⟨some proxy, ⟨[], [.attempt .dnsTcp 0], 10 ^ 9⟩⟩ := by
    simp only [preflightJob, preflightReport, hparsed]
    rw [show queueView.startedAt i = 0 from rfl, hpreflight]
    rfl
  exact ⟨proxy, outbound, houtbound, Preflighted.survivor_eq_some.mpr
    ⟨proxy, congrArg Probed.proxy hprobed, congrArg (·.outcome.events) hprobed, rfl⟩,
    congrArg Probed.outcome hprobed⟩

/-- The second job is tested after it waited. -/
theorem queue_served : ∃ survivor,
    (preflightJob (readerLibraries [] []) "feed" queueConfig queueView 1 queuedJob).survivor =
      some survivor ∧
    survivor.deadline = 20 * 10 ^ 9 ∧
    Served (readerLibraries [] []) queueConfig queueView.world
      (batchSurvivors (readerLibraries [] []) "feed" queueConfig 1 queueView queueJobs) survivor
      (.tested 32001 queuedRelay) ∧
    (preflightJob (readerLibraries [] []) "feed" queueConfig queueView 1
      queuedJob).probed.outcome = ⟨[], [.attempt .dnsTcp 0], 10 ^ 9⟩ := by
  have hparses₁ : ((parseShareUrl (readerLibraries [] []) "trojan://one@192.0.2.1:443".toList
      "feed").bind fun proxy => (xrayOutbound (readerLibraries [] []) proxy).map
        fun _ => proxy.address) = .ok "192.0.2.1" := by decide +kernel
  have hparses₂ : ((parseShareUrl (readerLibraries [] []) "trojan://two@192.0.2.2:443".toList
      "feed").bind fun proxy => (xrayOutbound (readerLibraries [] []) proxy).map
        fun _ => proxy.address) = .ok "192.0.2.2" := by decide +kernel
  obtain ⟨proxy₁, outbound₁, houtbound₁, hsurvivor₁, -⟩ :=
    queue_survivor 0 stalledJob hparses₁ (by decide)
  obtain ⟨proxy₂, outbound₂, houtbound₂, hsurvivor₂, houtcome⟩ :=
    queue_survivor 1 queuedJob hparses₂ (by decide)
  have hresults :
      preflightResults (readerLibraries [] []) "feed" queueConfig 1 queueView queueJobs =
        [preflightJob (readerLibraries [] []) "feed" queueConfig queueView 0 stalledJob,
          preflightJob (readerLibraries [] []) "feed" queueConfig queueView 1 queuedJob] := rfl
  refine ⟨_, hsurvivor₂, rfl, ?_, houtcome⟩
  rw [batchSurvivors, hresults, List.filterMap_cons_some hsurvivor₁,
    List.filterMap_cons_some hsurvivor₂, List.filterMap_nil]
  have hports : allocatePorts (queueView.world []).scan queueConfig.testPorts 2 =
      .ok [32000, 32001] := rfl
  refine Served.tested (i := 1) hports ?_ rfl rfl
  refine startBatch_eq_ok.mpr ⟨rfl, List.cons_ne_nil _ _, ?_⟩
  obtain ⟨outbounds, houtbounds⟩ := (batchOutbounds_isOk 0).mpr
    (List.forall_mem_cons.mpr ⟨⟨outbound₁, houtbound₁⟩,
      List.forall_mem_singleton.mpr ⟨outbound₂, houtbound₂⟩⟩)
  exact ⟨outbounds, houtbounds, rfl⟩

theorem spent_budget_harmless_iff_queue : ∃ probed,
    OrderedMap.get (testBatch (readerLibraries [] []) "feed" queueConfig 1 queueView queueJobs)
      "second" = some probed ∧
    ¬ Harmless (probeDeadline queueConfig 0) probed.outcome := by
  have hids : (queueJobs.map (·.id)).Nodup := by decide
  obtain ⟨survivor, hsurvivor, -, hserved, -⟩ := queue_served
  have hjob : queueJobs[1]? = some queuedJob := rfl
  obtain ⟨probed, hget, hiff⟩ := spent_budget_harmless_iff (F := ℚ) hids hjob
  refine ⟨probed, hget, fun hharmless => ?_⟩
  have hnow := hiff.mp hharmless _ (.service hsurvivor hserved (.request rfl))
  exact absurd hnow (by decide)

theorem queued_node_is_blamed : ∃ probed,
    OrderedMap.get (testBatch (readerLibraries [] []) "feed" queueConfig 1 queueView queueJobs)
      "second" = some probed ∧
    probed.outcome.steps = [.attempt .dnsTcp 0, .expired .relay (20 * 10 ^ 9)] ∧
    probed.report.events.map (·.failureClass) = [.relayTimeout] ∧
    ¬ Harmless (probeDeadline queueConfig 0) probed.outcome := by
  have hids : (queueJobs.map (·.id)).Nodup := by decide
  obtain ⟨survivor, hsurvivor, hdeadline, hserved, houtcome⟩ := queue_served
  have hjob : queueJobs[1]? = some queuedJob := rfl
  have hget := get_testBatch_served hids hjob hsurvivor hserved
  have hexpired : survivor.deadline ≤ (queuedRelay.request 0).checkedAt := Nat.le_of_eq hdeadline
  rw [houtcome, Service.outcome, testThroughXray_exceeded rfl (httpProbe_expired hexpired)] at hget
  refine ⟨_, hget, rfl, rfl, fun hharmless => ?_⟩
  have hlate := hharmless.late (by decide) _ (List.mem_singleton_self _)
  exact absurd hlate (by decide)

end Queue

end ProxyFleet
