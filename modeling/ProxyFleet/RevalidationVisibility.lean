import ProxyFleet.InconclusiveEvents
import ProxyFleet.ReaderQueries

/-!
# What consumers see of a revalidation

A claim writes `TESTING` into the lifecycle column, a port wait `WAITING_FOR_PORT`, and
the queries of the consumers ask for `ACTIVE`. So a claim or a port wait shows exactly
when it reaches a node that the runtime query returns. A release shows exactly when it
brings such a node back, and so does an event without evidence, for which the score of
the earlier evidence decides.
-/
namespace ProxyFleet

variable {F : Type}

/-- The event as one of the node's. -/
def TestEventInput.about (event : TestEventInput F) (id : String) : TestEventInput F :=
  { event with proxyId := id }

/-- The execution steps of a test. Its reports carry no evidence. -/
inductive TestExecution (F : Type) where
  | claim (now leaseUntil : Time)
  | wait (now retryAfter : Time)
  | release
  | report (now : Time) (event : TestEventInput F)
      (inconclusive : event.failureClass.inconclusive = true) (cadence : Cadence) (draw : ℕ)

def TestExecution.write (id : String) : TestExecution F → Write F
  | .claim now leaseUntil => .claimRow now leaseUntil id
  | .wait now retryAfter => .markWaitingForPort now id retryAfter
  | .release => .releaseTestLease id
  | .report now event _ cadence draw =>
      .applyTestEvent now (event.about id) cadence draw

/-- A moment at which a client, the VIP port and the runtime manager look. -/
structure ConsumerView (F : Type) where
  tables : ClientTables F
  client : String
  assignmentTtlSeconds : ℕ
  now : Time

/-- Consumers can be given the row as soon as it stands in `ACTIVE`. -/
def Node.presentable (row : Node F) (now : Time) : Bool :=
  row.structurallyValid && !row.leaseExpired now

theorem Node.runnable_eq (row : Node F) (now : Time) :
    row.runnable now = (decide (row.lifecycleState = .active) && row.presentable now) :=
  Bool.and_assoc ..

variable [F64 F]

/-- An event without evidence leaves the row in `ACTIVE`, or promotes it. -/
def Node.ActiveNext (row : Node F) (score : F) (cadence : Cadence) (now : Time) : Prop :=
  (row.seenLifecycle = .active ∧ ¬ row.Overdue score cadence now) ∨
  (row.seenLifecycle = .probation ∧ F64.le (F64.ofRat (70 / 100)) score = true)

instance (row : Node F) (score : F) (cadence : Cadence) (now : Time) :
    Decidable (row.ActiveNext score cadence now) :=
  inferInstanceAs (Decidable (_ ∧ _ ∨ _ ∧ _))

/-- The step shows: it reaches a node that the runtime query returns, or brings one back. -/
def ConsumerView.Shows (view : ConsumerView F) (id : String) (s : Store F) :
    TestExecution F → Prop
  | .claim now _ => ∃ row ∈ s.nodes, row.id = id ∧ row.leaseFree now = true ∧
      row.runnable view.now = true
  | .wait _ _ => ∃ row ∈ s.nodes, row.id = id ∧ row.runnable view.now = true
  | .release => ∃ row ∈ s.nodes, row.id = id ∧ row.lifecycleState = .testing ∧
      row.testingFromState = some .active ∧ row.presentable view.now = true
  | .report now event _ cadence _ =>
      s.alreadyApplied (event.about id) = false ∧
        ∃ row ∈ s.nodes, row.id = id ∧ (row.runnable view.now = true ∨
          row.ActiveNext (s.standingScore now (event.about id)) cadence now ∧
            row.presentable view.now = true)

instance decidableShows (view : ConsumerView F) (id : String) (s : Store F) :
    ∀ e, Decidable (view.Shows id s e)
  | .claim _ _ => inferInstanceAs (Decidable (∃ row ∈ s.nodes, _ ∧ _))
  | .wait _ _ => inferInstanceAs (Decidable (∃ row ∈ s.nodes, _ ∧ _))
  | .release => inferInstanceAs (Decidable (∃ row ∈ s.nodes, _ ∧ _))
  | .report _ _ _ _ _ => inferInstanceAs (Decidable (_ ∧ ∃ row ∈ s.nodes, _ ∧ (_ ∨ _)))

/-- No report meets the node in `ACTIVE`, where a claim would have left it in `TESTING`. -/
def TestExecution.Held (id : String) (s : Store F) : TestExecution F → Prop
  | .report .. => ∀ row ∈ s.nodes, row.id = id → row.lifecycleState ≠ .active
  | _ => True

instance decidableHeld (id : String) (s : Store F) : ∀ e : TestExecution F, Decidable (e.Held id s)
  | .report _ _ _ _ _ => inferInstanceAs (Decidable (∀ row ∈ s.nodes, _ → _ ≠ _))
  | .claim _ _ => isTrue trivial
  | .wait _ _ => isTrue trivial
  | .release => isTrue trivial

/-- The three queries return the node from both stores, or from neither. -/
structure ConsumerView.Same (view : ConsumerView F) (id : String) (s t : Store F) : Prop where
  client :
    (∃ c ∈ s.candidatesForClient view.tables view.now view.client view.assignmentTtlSeconds,
      c.id = id) ↔
    ∃ c ∈ t.candidatesForClient view.tables view.now view.client view.assignmentTtlSeconds,
      c.id = id
  vip : (∃ c, s.bestVipCandidate view.tables view.now = some c ∧ c.id = id) ↔
    ∃ c, t.bestVipCandidate view.tables view.now = some c ∧ c.id = id
  runtime : (∃ c ∈ s.activeRuntimeCandidates view.now, c.id = id) ↔
    ∃ c ∈ t.activeRuntimeCandidates view.now, c.id = id

namespace ConsumerView

variable {view : ConsumerView F} {id : String} {r s t : Store F}

theorem Same.refl (s : Store F) : view.Same id s s := ⟨Iff.rfl, Iff.rfl, Iff.rfl⟩

theorem Same.symm (h : view.Same id s t) : view.Same id t s :=
  ⟨h.client.symm, h.vip.symm, h.runtime.symm⟩

theorem Same.trans (h : view.Same id r s) (h' : view.Same id s t) : view.Same id r t :=
  ⟨h.client.trans h'.client, h.vip.trans h'.vip, h.runtime.trans h'.runtime⟩

/-- A node that the runtime query passes over is in none of the three. -/
theorem same_of_hidden (hs : ∀ row ∈ s.nodes, row.id = id → row.runnable view.now = false)
    (ht : ∀ row ∈ t.nodes, row.id = id → row.runnable view.now = false) : view.Same id s t := by
  have hnone : ∀ u : Store F, (∀ row ∈ u.nodes, row.id = id → row.runnable view.now = false) →
      (¬ ∃ c ∈ u.candidatesForClient view.tables view.now view.client view.assignmentTtlSeconds,
        c.id = id) ∧
      (¬ ∃ c, u.bestVipCandidate view.tables view.now = some c ∧ c.id = id) ∧
      ¬ ∃ c ∈ u.activeRuntimeCandidates view.now, c.id = id := by
    intro u hu
    refine ⟨?_, ?_, ?_⟩
    · rintro ⟨c, hc, hid⟩
      obtain ⟨row, hr, hselectable, hrow⟩ := Store.candidate_row hc
      have hrunnable := Node.runnable_of_selectable hselectable
      rw [hu row hr (hrow.trans hid)] at hrunnable
      cases hrunnable
    · rintro ⟨c, hc, hid⟩
      obtain ⟨row, hr, hselectable, hrow⟩ := Store.vip_row hc
      have hrunnable := Node.runnable_of_selectable hselectable
      rw [hu row hr (hrow.trans hid)] at hrunnable
      cases hrunnable
    · intro h
      obtain ⟨row, hr, hrunnable, hrow⟩ := Store.mem_activeRuntimeCandidates.mp h
      rw [hu row hr hrow] at hrunnable
      cases hrunnable
  obtain ⟨hc, hv, hr⟩ := hnone s hs
  obtain ⟨hc', hv', hr'⟩ := hnone t ht
  exact ⟨iff_of_false hc hc', iff_of_false hv hv', iff_of_false hr hr'⟩

omit [F64 F] in
/-- The only row of the node after an update that reaches it. -/
theorem eq_of_updated (keyed : s.WellKeyed) {guard : Node F → Bool} {f : Node F → Node F}
    (own : ∀ row, guard row = true → row.id = id) (hf : ∀ row, (f row).id = row.id)
    {row new : Node F} (hr : row ∈ s.nodes) (hg : guard row = true)
    (hnew : new ∈ (s.updateNodes guard f).nodes) (hid : new.id = id) : new = f row := by
  obtain ⟨old, hold, ⟨-, rfl⟩ | ⟨hskipped, rfl⟩⟩ := Store.mem_updateNodes.mp hnew
  · rw [RowUpdates.eq_of_key_eq keyed.ids hold hr
      ((hf old).symm.trans (hid.trans (own row hg).symm))]
  · rw [RowUpdates.eq_of_key_eq keyed.ids hold hr (hid.trans (own row hg).symm), hg] at hskipped
    cases hskipped

/-- The queries read nothing but the rows. -/
theorem Same.of_nodes_eq (h : t.nodes = s.nodes) : view.Same id s t := by
  constructor <;>
    simp only [Store.candidatesForClient, Store.bestVipCandidate, Store.activeRuntimeCandidates, h]

section Updates

variable (guard : Node F → Bool) (f : Node F → Node F)

/-- A guarded update of the node that keeps it out of the runtime query. -/
theorem same_updateNodes (keyed : s.WellKeyed) (own : ∀ row, guard row = true → row.id = id)
    (hf : ∀ row, (f row).id = row.id) (ht : t.nodes = (s.updateNodes guard f).nodes)
    (hidden : ∀ row ∈ s.nodes, guard row = true →
      row.runnable view.now = false ∧ (f row).runnable view.now = false) : view.Same id s t := by
  by_cases hex : ∃ row ∈ s.nodes, guard row = true
  · obtain ⟨row, hr, hg⟩ := hex
    apply same_of_hidden
    · intro other ho hid
      rw [RowUpdates.eq_of_key_eq keyed.ids ho hr (hid.trans (own row hg).symm)]
      exact (hidden row hr hg).1
    · intro new hnew hid
      rw [eq_of_updated keyed own hf hr hg (ht ▸ hnew) hid]
      exact (hidden row hr hg).2
  · apply Same.of_nodes_eq
    rw [ht, Store.updateNodes, RowUpdates.updateWhere_of_forall_not fun row hr => ?_]
    cases hg : guard row with
    | false => rfl
    | true => exact absurd ⟨row, hr, hg⟩ hex

/-- An update that no query shows leaves the row in the runtime query, or out of it. -/
theorem Same.runnable_eq (h : view.Same id s t) (keyed : s.WellKeyed)
    (own : ∀ row, guard row = true → row.id = id) (hf : ∀ row, (f row).id = row.id)
    (ht : t.nodes = (s.updateNodes guard f).nodes) {row : Node F} (hr : row ∈ s.nodes)
    (hg : guard row = true) : (f row).runnable view.now = row.runnable view.now := by
  have hmem : f row ∈ t.nodes := ht ▸ Store.mem_updateNodes.mpr ⟨row, hr, .inl ⟨hg, rfl⟩⟩
  rw [Bool.eq_iff_iff]
  constructor
  · intro hrunnable
    obtain ⟨old, hold, hshown, hid⟩ := Store.mem_activeRuntimeCandidates.mp
      (h.runtime.mpr (Store.mem_activeRuntimeCandidates.mpr
        ⟨f row, hmem, hrunnable, (hf row).trans (own row hg)⟩))
    rwa [RowUpdates.eq_of_key_eq keyed.ids hold hr (hid.trans (own row hg).symm)] at hshown
  · intro hrunnable
    obtain ⟨new, hnew, hshown, hid⟩ := Store.mem_activeRuntimeCandidates.mp
      (h.runtime.mp (Store.mem_activeRuntimeCandidates.mpr ⟨row, hr, hrunnable, own row hg⟩))
    rwa [eq_of_updated keyed own hf hr hg (ht ▸ hnew) hid] at hshown

end Updates

section Reports

variable {row : Node F} {now : Time} {event : TestEventInput F} {cadence : Cadence} {draw : ℕ}

/-- What an event without evidence makes of the lifecycle, as far as readers see it. -/
theorem decided_active_iff (totals : F × F) (inconclusive : event.failureClass.inconclusive = true)
    (bounded : CountersBounded row) :
    (row.healthInput totals event cadence now).decidedLifecycle = .active ↔
      row.ActiveNext (health totals.1 totals.2) cadence now := by
  have hkept : (row.healthInput totals event cadence now).decidedLifecycle = row.seenLifecycle ↔
      ¬ row.Overdue (health totals.1 totals.2) cadence now :=
    decidedLifecycle_eq_iff totals inconclusive bounded
  have hsucc : (row.healthInput totals event cadence now).succeeded = false := by
    simpa [HealthInput.succeeded, Node.healthInput] using
      FailureClass.ne_success_of_inconclusive inconclusive
  have hclass : (row.healthInput totals event cadence now).failureClass ≠ .invalidConfig := by
    intro h
    have h : event.failureClass = .invalidConfig := h
    simp [h, FailureClass.inconclusive] at inconclusive
  have hprior : (row.healthInput totals event cadence now).priorLifecycle = row.seenLifecycle := rfl
  have hscore : (row.healthInput totals event cadence now).score = health totals.1 totals.2 := rfl
  have hreal : (row.healthInput totals event cadence now).realDownload = false := by
    simp [HealthInput.realDownload, hsucc]
  unfold Node.ActiveNext
  cases hseen : row.seenLifecycle with
  | active => rw [← hkept, hseen]; simp
  | probation =>
    unfold HealthInput.decidedLifecycle HealthInput.hysteresis
    rw [hreal, hprior, hscore, hseen]
    cases F64.le (F64.ofRat (70 / 100)) (health totals.1 totals.2) with
    | true => simp [hclass]
    | false =>
      simp only [hclass]
      split_ifs <;> simp
  | dormant =>
    unfold HealthInput.decidedLifecycle HealthInput.hysteresis
    rw [hreal, hprior, hsucc, hseen]
    simp [hclass]
  | candidate | testing | invalid | retired | waitingForPort =>
    unfold HealthInput.decidedLifecycle HealthInput.hysteresis
    rw [hreal, hprior, hseen]
    simp [hclass]

/-- Such an event touches neither the lease nor the validity. -/
theorem runnable_applyEvent (totals : F × F)
    (inconclusive : event.failureClass.inconclusive = true) :
    (row.applyEvent totals event cadence now draw).runnable view.now =
      (decide ((row.healthInput totals event cadence now).decidedLifecycle = .active) &&
        row.presentable view.now) := by
  have hsucc : (row.healthInput totals event cadence now).succeeded = false := by
    simpa [HealthInput.succeeded, Node.healthInput] using
      FailureClass.ne_success_of_inconclusive inconclusive
  have hlease : (row.applyEvent totals event cadence now draw).publicationLeaseUntil =
      row.publicationLeaseUntil := HealthInput.decidedLease_of_not_succeeded hsucc
  have hvalid : (row.applyEvent totals event cadence now draw).structurallyValid =
      row.structurallyValid := by
    refine if_neg fun h => ?_
    simp [h, FailureClass.inconclusive] at inconclusive
  rw [Node.runnable_eq, Node.presentable, Node.presentable, Node.leaseExpired, Node.leaseExpired,
    hlease, hvalid]
  rfl

end Reports

section Steps

/-- Recording an event leaves the rows to the update that follows. -/
theorem nodes_recorded (s : Store F) (now : Time) (event : TestEventInput F)
    (guard : Node F → Bool) (f : Node F → Node F) :
    ((s.recordTestEvent now event).updateNodes guard f).nodes = (s.updateNodes guard f).nodes := rfl

variable {ws : List (Write F)}

/-- A report on the node of a reachable store, seen from its row. -/
theorem runnable_reported [F64.Lawful F] [F64.ZeroNeutral F] {row : Node F} {now : Time}
    (event : TestEventInput F) (hr : row ∈ (Store.empty.writes ws).nodes)
    (inconclusive : event.failureClass.inconclusive = true) (cadence : Cadence) (draw : ℕ) :
    (row.applyEvent ((Store.empty.writes ws).scored now event) event cadence now draw).runnable
        view.now = true ↔
      row.ActiveNext ((Store.empty.writes ws).standingScore now event) cadence now ∧
        row.presentable view.now = true := by
  rw [runnable_applyEvent _ inconclusive, Bool.and_eq_true, decide_eq_true_eq,
    decided_active_iff _ inconclusive (countersBounded_writes ws row hr),
    health_scored_inconclusive (weighed_writes ws) inconclusive]

omit [F64 F] in
theorem own_of_and {guard : Node F → Bool} (row : Node F)
    (h : (decide (row.id = id) && guard row) = true) : row.id = id :=
  of_decide_eq_true (Bool.and_eq_true_iff.mp h).1

variable [F64.Lawful F] [F64.ZeroNeutral F]

/-- A step that does not show changes no answer. -/
theorem same_write (e : TestExecution F) (h : ¬ view.Shows id (Store.empty.writes ws) e) :
    view.Same id (Store.empty.writes ws) ((Store.empty.writes ws).write (e.write id)) := by
  have keyed : (Store.empty.writes ws : Store F).WellKeyed := Store.wellKeyed_empty.writes ws
  cases e with
  | claim now leaseUntil =>
    refine same_updateNodes (fun row => row.id = id && row.leaseFree now)
      (fun row => row.claimed leaseUntil) keyed own_of_and (fun _ => rfl) rfl
      fun row hr hg => ⟨?_, rfl⟩
    simp only [Bool.and_eq_true, decide_eq_true_eq] at hg
    rw [Bool.eq_false_iff]
    exact fun hrunnable => h ⟨row, hr, hg.1, hg.2, hrunnable⟩
  | wait now retryAfter =>
    refine same_updateNodes (fun row => row.id = id && row.structurallyValid)
      (fun row => row.waiting now retryAfter) keyed own_of_and (fun _ => rfl) rfl
      fun row hr hg => ⟨?_, rfl⟩
    rw [Bool.eq_false_iff]
    exact fun hrunnable => h ⟨row, hr, own_of_and row hg, hrunnable⟩
  | release =>
    refine same_updateNodes (fun row => row.id = id && row.lifecycleState = .testing)
      Node.released keyed own_of_and (fun _ => rfl) rfl fun row hr hg => ?_
    simp only [Bool.and_eq_true, decide_eq_true_eq] at hg
    refine ⟨by simp [Node.runnable, hg.2], ?_⟩
    rw [Bool.eq_false_iff]
    intro hrunnable
    rw [Node.runnable_eq, Bool.and_eq_true, decide_eq_true_eq] at hrunnable
    obtain ⟨hactive, hpresentable⟩ := hrunnable
    refine h ⟨row, hr, hg.1, hg.2, ?_, hpresentable⟩
    cases hfrom : row.testingFromState with
    | none => simp [Node.released, hfrom, hg.2] at hactive
    | some state => simpa [Node.released, hfrom] using hactive
  | report now event inconclusive cadence draw =>
    rw [TestExecution.write, Store.write_applyTestEvent]
    split
    · next fresh =>
      have hnew : (Store.empty.writes ws).alreadyApplied (event.about id) = false := by
        simpa using (Bool.and_eq_true_iff.mp fresh).2
      refine same_updateNodes _ (fun row => row.applyEvent _ (event.about id) cadence now draw)
        keyed (fun row => of_decide_eq_true) (fun _ => rfl) (nodes_recorded _ _ _ _ _)
        fun row hr hg => ?_
      have own : row.id = id := of_decide_eq_true hg
      rw [Bool.eq_false_iff, Bool.eq_false_iff]
      constructor
      · exact fun hrunnable => h ⟨hnew, row, hr, own, .inl hrunnable⟩
      · intro hrunnable
        rw [runnable_reported (event.about id) hr inconclusive cadence draw] at hrunnable
        exact h ⟨hnew, row, hr, own, .inr hrunnable⟩
    · exact .refl _

/-- A step that shows changes the answer of the runtime query. -/
theorem not_shows_of_same {e : TestExecution F} (held : e.Held id (Store.empty.writes ws))
    (h : view.Same id (Store.empty.writes ws) ((Store.empty.writes ws).write (e.write id))) :
    ¬ view.Shows id (Store.empty.writes ws) e := by
  have keyed : (Store.empty.writes ws : Store F).WellKeyed := Store.wellKeyed_empty.writes ws
  cases e with
  | claim now leaseUntil =>
    rintro ⟨row, hr, own, hfree, hrunnable⟩
    have hkept := h.runnable_eq (fun row => row.id = id && row.leaseFree now)
      (fun row => row.claimed leaseUntil) keyed
      own_of_and (fun _ => rfl) rfl hr (by simp [own, hfree])
    rw [hrunnable] at hkept
    cases hkept
  | wait now retryAfter =>
    rintro ⟨row, hr, own, hrunnable⟩
    have hvalid : row.structurallyValid = true := by
      simp only [Node.runnable, Bool.and_eq_true] at hrunnable
      exact hrunnable.1.2
    have hkept := h.runnable_eq (fun row => row.id = id && row.structurallyValid)
      (fun row => row.waiting now retryAfter) keyed
      own_of_and (fun _ => rfl) rfl hr (by simp [own, hvalid])
    rw [hrunnable] at hkept
    cases hkept
  | release =>
    rintro ⟨row, hr, own, htesting, hfrom, hpresentable⟩
    have hkept := h.runnable_eq (fun row => row.id = id && row.lifecycleState = .testing)
      Node.released keyed
      own_of_and (fun _ => rfl) rfl hr (by simp [own, htesting])
    have hback : row.released.runnable view.now = true := by
      rw [Node.runnable_eq, Bool.and_eq_true, decide_eq_true_eq]
      exact ⟨by simp [Node.released, hfrom], hpresentable⟩
    rw [hback, Node.runnable_eq, htesting] at hkept
    cases hkept
  | report now event inconclusive cadence draw =>
    rintro ⟨hnew, row, hr, own, hshown⟩
    have hinactive : row.lifecycleState ≠ .active := held row hr own
    have hbefore : row.runnable view.now = false := by
      rw [Node.runnable_eq, decide_eq_false hinactive, Bool.false_and]
    have fresh : (Store.empty.writes ws).accepts (event.about id) = true := by
      have found : (Store.empty.writes ws).findNode (event.about id).proxyId = some row :=
        own ▸ Store.findNode_eq_some keyed hr
      simp [Store.accepts, hnew, found]
    rw [TestExecution.write, Store.write_applyTestEvent, if_pos fresh] at h
    have hkept := h.runnable_eq _ (fun row => row.applyEvent _ (event.about id) cadence now draw)
      keyed (fun row => of_decide_eq_true) (fun _ => rfl) (nodes_recorded _ _ _ _ _) hr
      (decide_eq_true own)
    rcases hshown with hshown | hshown
    · rw [hshown] at hbefore
      cases hbefore
    · rw [← runnable_reported (event.about id) hr inconclusive cadence draw] at hshown
      rw [hbefore, hshown] at hkept
      cases hkept

end Steps

end ConsumerView

/-- The store after one execution step of the node's test. -/
def Store.execute (id : String) (s : Store F) (e : TestExecution F) : Store F :=
  s.write (e.write id)

/-- From every reachable store the execution of a test stays invisible as long as no claim, no
port wait and no report reaches a node that consumers can be given and no release or report
brings one back, and, where every report comes to a node that is held by its test, only then. -/
theorem revalidation_invisible_iff [F64.Lawful F] [F64.ZeroNeutral F] (ws : List (Write F))
    (view : ConsumerView F) (id : String) (steps : List (TestExecution F)) :
    (ObservedRuns.Admitted (Store.execute id) (fun t e => ¬ view.Shows id t e)
        (Store.empty.writes ws) steps →
      ObservedRuns.Throughout (Store.execute id) (fun t => view.Same id (Store.empty.writes ws) t)
        (Store.empty.writes ws) steps) ∧
    (ObservedRuns.Admitted (Store.execute id) (fun t e => e.Held id t) (Store.empty.writes ws)
        steps →
      (ObservedRuns.Throughout (Store.execute id)
          (fun t => view.Same id (Store.empty.writes ws) t) (Store.empty.writes ws) steps ↔
        ObservedRuns.Admitted (Store.execute id) (fun t e => ¬ view.Shows id t e)
          (Store.empty.writes ws) steps)) := by
  have hreach : ∀ (t : Store F) (e : TestExecution F), (∃ vs, t = Store.empty.writes vs) →
      ∃ vs, t.execute id e = Store.empty.writes vs := by
    rintro _ e ⟨vs, rfl⟩
    exact ⟨vs ++ [e.write id], (Store.writes_append _ vs [e.write id]).symm⟩
  constructor
  · apply ObservedRuns.throughout_of_invariant
      (J := fun t => (∃ vs, t = Store.empty.writes vs) ∧ view.Same id (Store.empty.writes ws) t)
    · rintro t e hquiet ⟨⟨vs, rfl⟩, hsame⟩
      exact ⟨hreach _ e ⟨vs, rfl⟩, hsame.trans (ConsumerView.same_write e hquiet)⟩
    · exact fun t h => h.2
    · exact ⟨⟨ws, rfl⟩, .refl _⟩
  · intro held
    refine ObservedRuns.throughout_iff (J := fun t => ∃ vs, t = Store.empty.writes vs)
      (fun t e _ => hreach t e) ?_ ⟨ws, rfl⟩ (.refl _) held
    rintro t e hheld ⟨vs, rfl⟩ hsame
    constructor
    · exact fun h => ConsumerView.not_shows_of_same hheld (hsame.symm.trans h)
    · exact fun h => hsame.trans (ConsumerView.same_write e h)

/-- A node that a download made `ACTIVE`, with a running port. -/
def servedFleet : List (Write ℚ) := [
  .ingestOne 0 sampleProxy "node" 1,
  .applyTestEvent 0 (sampleEvent "run" .download .success) defaultCadence 0,
  .setMainPort "node" 20000]

/-- Five minutes later its next test falls due. -/
def servedView : ConsumerView ℚ where
  tables := {}
  client := "client"
  assignmentTtlSeconds := 300
  now := minutes 5

def servedTick : ClaimTick ℚ where
  now := minutes 5
  lease := minutes 15
  activeDownloadInterval := minutes 5
  pressure := 0

/-- The claim takes it away from clients, VIP and runtime. -/
theorem revalidation_not_invisible :
    ¬ ∀ (ws : List (Write ℚ)) (view : ConsumerView ℚ) (id : String) (capacity : ℕ)
        (tick : ClaimTick ℚ),
      (∃ job ∈ ((Store.empty.writes ws).claimDue capacity tick).2, job.id = id) →
      view.Same id (Store.empty.writes ws) ((Store.empty.writes ws).claimDue capacity tick).1 := by
  intro h
  have hclaimed : (((Store.empty.writes servedFleet).claimDue 1 servedTick).2).map (·.id) =
      ["node"] := by
    unfold Store.claimDue
    decide +kernel
  have hbefore : ((Store.empty.writes servedFleet).activeRuntimeCandidates (minutes 5)).map (·.id) =
      ["node"] := by decide +kernel
  have hafter : (((Store.empty.writes servedFleet).claimDue 1 servedTick).1.activeRuntimeCandidates
      (minutes 5)).map (·.id) = [] := by
    unfold Store.claimDue
    decide +kernel
  have hjob : ∃ job ∈ ((Store.empty.writes servedFleet).claimDue 1 servedTick).2,
      job.id = "node" := by
    apply List.mem_map.mp
    rw [hclaimed]
    exact List.mem_singleton_self _
  have hshown : ∃ c ∈ (Store.empty.writes servedFleet).activeRuntimeCandidates (minutes 5),
      c.id = "node" := by
    apply List.mem_map.mp
    rw [hbefore]
    exact List.mem_singleton_self _
  obtain ⟨c, hc, -⟩ := (h servedFleet servedView "node" 1 servedTick hjob).runtime.mp hshown
  exact List.not_mem_nil (List.map_eq_nil_iff.mp hafter ▸ hc)

/-- A node in `PROBATION` is tested twice without a trace: once it has to wait for a port, once
the machine is overloaded. -/
def unseenExecution : List (TestExecution ℚ) := [
  .claim (minutes 16) (minutes 31),
  .wait (minutes 16) (minutes 1),
  .claim (minutes 17) (minutes 32),
  .report (minutes 18) (sampleEvent "overloaded" .static .localOverload) rfl defaultCadence 0,
  .claim (minutes 20) (minutes 35),
  .release]

theorem revalidation_invisible_iff_probation :
    ((Store.empty.writes relayedAfterRevival).findNode "node").map Node.lifecycleState =
        some .probation ∧
      ObservedRuns.Throughout (Store.execute "node")
        (fun t => servedView.Same "node" (Store.empty.writes relayedAfterRevival) t)
        (Store.empty.writes relayedAfterRevival) unseenExecution := by
  refine ⟨by decide +kernel, ?_⟩
  exact ((revalidation_invisible_iff relayedAfterRevival servedView "node" unseenExecution).2
    (by decide +kernel)).mpr (by decide +kernel)

end ProxyFleet
