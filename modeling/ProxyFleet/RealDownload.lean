import ProxyFleet.EventHistory

/-!
# What earns `ACTIVE`

A real download activates a node from any tested state. The other way into
`ACTIVE` is a high score in `PROBATION`, and a node that never downloaded stands
in `PROBATION` only after a manual revival.
-/
namespace ProxyFleet

variable {F : Type}

inductive Milestone where
  | downloaded | revived | promoted
  deriving DecidableEq, Repr

/-- The milestones of one node, newest first. -/
def ownMilestones (id : String) (log : List (String × Milestone)) : List Milestone :=
  (log.filter fun m => m.1 = id).map (·.2)

/-- Score promotion followed an earlier revival. -/
def PromotedAfterRevival (own : List Milestone) : Prop :=
  ∃ later earlier, own = later ++ .promoted :: earlier ∧ .revived ∈ earlier

theorem PromotedAfterRevival.revived {own : List Milestone} (h : PromotedAfterRevival own) :
    .revived ∈ own := by
  obtain ⟨later, earlier, rfl, hr⟩ := h
  exact List.mem_append_right _ (List.mem_cons_of_mem _ hr)

theorem PromotedAfterRevival.suffix {own own' : List Milestone} (hs : own <:+ own')
    (h : PromotedAfterRevival own) : PromotedAfterRevival own' := by
  obtain ⟨newer, rfl⟩ := hs
  obtain ⟨later, earlier, rfl, hr⟩ := h
  exact ⟨newer ++ later, earlier, by simp, hr⟩

variable [F64 F]

/-- What an event that is applied to the row does for its standing. -/
def Node.milestones (row : Node F) (s : Store F) (now : Time) (event : TestEventInput F)
    (cadence : Cadence) : List (String × Milestone) :=
  let input := row.healthInput (s.scored now event) event cadence now
  if input.realDownload then [(event.proxyId, .downloaded)]
  else if row.seenLifecycle = .probation ∧ F64.le (F64.ofRat (70 / 100)) input.score = true then
    [(event.proxyId, .promoted)]
  else []

/-- The milestones after one write. A new row starts without any. -/
def noteMilestones (log : List (String × Milestone)) (s : Store F) :
    Write F → List (String × Milestone)
  | .applyTestEvent now event cadence _ =>
      match s.findNode event.proxyId with
      | some row =>
        if s.alreadyApplied event then log else row.milestones s now event cadence ++ log
      | none => log
  | .reviveNode _ id =>
      match s.findNode id with
      | some row => if row.revivable then (id, .revived) :: log else log
      | none => log
  | .reviveDormant _ =>
      ((s.nodes.filter fun row => row.lifecycleState = .dormant && row.structurallyValid).map
        fun row => (row.id, Milestone.revived)) ++ log
  | .ingestOne _ _ newId _ =>
      if s.nodes.any fun row => row.id = newId then log else log.filter fun m => m.1 ≠ newId
  | _ => log

/-- The milestones of a run that starts on an empty database. -/
abbrev milestones (ws : List (Write F)) : List (String × Milestone) :=
  ObservedRuns.notes Store.write noteMilestones [] Store.empty ws

section OwnMilestones

variable {s : Store F} {log : List (String × Milestone)} {row : Node F}

omit [F64 F] in
theorem ownMilestones_append (id : String) (new log : List (String × Milestone)) :
    ownMilestones id (new ++ log) = ownMilestones id new ++ ownMilestones id log := by
  simp [ownMilestones]

/-- The milestones of an existing row only grow. -/
theorem ownMilestones_suffix (log : List (String × Milestone)) (hr : row ∈ s.nodes) (w : Write F) :
    ownMilestones row.id log <:+ ownMilestones row.id (noteMilestones log s w) := by
  cases w with
  | applyTestEvent now event cadence draw =>
    simp only [noteMilestones]
    split
    · split
      · exact List.suffix_rfl
      · rw [ownMilestones_append]
        exact List.suffix_append _ _
    · exact List.suffix_rfl
  | reviveNode now id =>
    simp only [noteMilestones]
    split
    · split
      · rw [show (id, Milestone.revived) :: log = [(id, .revived)] ++ log from rfl,
          ownMilestones_append]
        exact List.suffix_append _ _
      · exact List.suffix_rfl
    · exact List.suffix_rfl
  | reviveDormant now =>
    rw [noteMilestones, ownMilestones_append]
    exact List.suffix_append _ _
  | ingestOne now proxy newId generation =>
    simp only [noteMilestones]
    split
    · exact List.suffix_rfl
    next hnew =>
      have hid : row.id ≠ newId := by
        intro he
        exact hnew (by simpa using ⟨row, hr, he⟩)
      have hsame : (log.filter fun m => m.1 ≠ newId).filter (fun m => m.1 = row.id) =
          log.filter fun m => m.1 = row.id := by
        rw [List.filter_filter]
        apply List.filter_congr
        intro m _
        by_cases hm : m.1 = row.id <;> simp [hm, hid]
      rw [ownMilestones, ownMilestones, hsame]
  | _ => exact List.suffix_rfl

theorem noteMilestones_applied (hk : s.WellKeyed) (hr : row ∈ s.nodes) {now : Time}
    {event : TestEventInput F} {cadence : Cadence} {draw : ℕ} (own : row.id = event.proxyId)
    (fresh : s.accepts event = true) :
    noteMilestones log s (.applyTestEvent now event cadence draw) =
      row.milestones s now event cadence ++ log := by
  have hf : s.findNode event.proxyId = some row := own ▸ Store.findNode_eq_some hk hr
  have ha : s.alreadyApplied event = false := by
    simpa [Store.accepts, hf] using fresh
  simp [noteMilestones, hf, ha]

theorem ownMilestones_applied (hk : s.WellKeyed) (hr : row ∈ s.nodes) {now : Time}
    {event : TestEventInput F} {cadence : Cadence} {draw : ℕ} (own : row.id = event.proxyId)
    (fresh : s.accepts event = true) :
    ownMilestones row.id (noteMilestones log s (.applyTestEvent now event cadence draw)) =
      (row.milestones s now event cadence).map (·.2) ++ ownMilestones row.id log := by
  have hall : ownMilestones row.id (row.milestones s now event cadence) =
      (row.milestones s now event cadence).map (·.2) := by
    unfold Node.milestones
    dsimp only
    split_ifs <;> simp [ownMilestones, own]
  rw [noteMilestones_applied hk hr own fresh, ownMilestones_append, hall]

/-- A revival is noted for every row that it moves. -/
theorem revived_mem_ownMilestones (hk : s.WellKeyed) (hr : row ∈ s.nodes) {w : Write F}
    (h : (∃ now, w = .reviveDormant now ∧ row.lifecycleState = .dormant ∧
        row.structurallyValid = true) ∨
      ∃ now, w = .reviveNode now row.id ∧ row.revivable = true) :
    .revived ∈ ownMilestones row.id (noteMilestones log s w) := by
  obtain ⟨now, rfl, dormant, valid⟩ | ⟨now, rfl, revivable⟩ := h
  · have hm : (row.id, Milestone.revived) ∈ noteMilestones log s (.reviveDormant now) := by
      refine List.mem_append_left _ (List.mem_map.mpr ⟨row, List.mem_filter.mpr ⟨hr, ?_⟩, rfl⟩)
      simp [dormant, valid]
    exact List.mem_map.mpr ⟨_, List.mem_filter.mpr ⟨hm, by simp⟩, rfl⟩
  · have hf := Store.findNode_eq_some hk hr
    simp [noteMilestones, hf, revivable, ownMilestones]

end OwnMilestones

/-- What a row's standing rests on. -/
structure StandingEarned (own : List Milestone) (row : Node F) : Prop where
  active : row.Stores .active →
    (row.lastRealDownloadAt.isSome = true ∧ .downloaded ∈ own) ∨ PromotedAfterRevival own
  lower : row.Stores .probation ∨ row.Stores .dormant →
    (row.lastRealDownloadAt.isSome = true ∧ .downloaded ∈ own) ∨ .revived ∈ own

/-- A row keeps the download that it has, whatever happens to it. -/
theorem RowStep.lastRealDownloadAt_isSome {s : Store F} {w : Write F} {row row' : Node F}
    (hr : row ∈ s.nodes) (hs : RowStep s w row row') (h : row.lastRealDownloadAt.isSome = true) :
    row'.lastRealDownloadAt.isSome = true := by
  obtain ⟨now, event, cadence, draw, rfl, own, hacc, rfl⟩ | ⟨-, hsum, -⟩ := hs.event_or_frame hr
  · simp only [Node.applyEvent, Node.applyDecision]
    split
    · rfl
    · exact h
  · have := congrArg EvidenceSummary.lastRealDownloadAt hsum
    simp only [Node.summary] at this
    rwa [this]

section Application

variable {own : List Milestone} {row : Node F} {s : Store F} {now : Time}
  {event : TestEventInput F} {cadence : Cadence} {draw : ℕ}

theorem activation_earned (h : StandingEarned own row)
    (active : (row.applyEvent (s.scored now event) event cadence now draw).lifecycleState =
      .active) :
    ((row.applyEvent (s.scored now event) event cadence now draw).lastRealDownloadAt.isSome = true ∧
      .downloaded ∈ (row.milestones s now event cadence).map (·.2) ++ own) ∨
    (row.lastRealDownloadAt.isSome = true ∧ .downloaded ∈ own) ∨
    PromotedAfterRevival ((row.milestones s now event cadence).map (·.2) ++ own) := by
  by_cases hp : row.seenLifecycle = .active
  · obtain hd | hpr := h.active (hp ▸ row.stores_seenLifecycle)
    · exact .inr (.inl hd)
    · exact .inr (.inr (hpr.suffix (List.suffix_append _ _)))
  cases hd : (row.healthInput (s.scored now event) event cadence now).realDownload with
  | true =>
    left
    simp only [HealthInput.realDownload, HealthInput.succeeded, Node.healthInput,
      Bool.and_eq_true, beq_iff_eq] at hd
    constructor
    · simp [Node.applyEvent, Node.applyDecision, hd.1, hd.2]
    · simp [Node.milestones, HealthInput.realDownload, HealthInput.succeeded, Node.healthInput,
        hd.1, hd.2]
  | false =>
    obtain hd' | ⟨hprob, hscore⟩ := HealthInput.becomes_active
      (i := row.healthInput (s.scored now event) event cadence now) hp active
    · rw [hd] at hd'
      cases hd'
    obtain hearned | hrev := h.lower (.inl (hprob ▸ row.stores_seenLifecycle))
    · exact .inr (.inl hearned)
    · refine .inr (.inr ⟨[], own, ?_, hrev⟩)
      have hprob : row.seenLifecycle = .probation := hprob
      simp [Node.milestones, hd, hprob, hscore]

end Application

/-- In every run the standing of every row is earned. -/
theorem standingEarned_milestones (ws : List (Write F)) :
    ∀ row ∈ (Store.empty.writes ws).nodes,
      StandingEarned (ownMilestones row.id (milestones ws)) row := by
  refine rows_preserved (P := fun log row => StandingEarned (ownMilestones row.id log) row)
    ?_ ?_ ws
  · intro s log w row hi
    cases hi
    constructor <;> simp [Node.Stores, Node.ingested]
  · intro s log w row row' hk hr h hs
    have hgrow := ownMilestones_suffix log hr w
    have hreal := hs.lastRealDownloadAt_isSome hr
    have hearned : row.lastRealDownloadAt.isSome = true ∧
          .downloaded ∈ ownMilestones row.id log →
        row'.lastRealDownloadAt.isSome = true ∧
          .downloaded ∈ ownMilestones row.id (noteMilestones log s w) :=
      fun h => ⟨hreal h.1, hgrow.subset h.2⟩
    rw [show row'.id = row.id from hs.id_eq]
    constructor
    · intro hst
      obtain hst | hst | ⟨hst, -⟩ | ⟨now, event, cadence, draw, rfl, own, hacc, rfl, hst⟩ :=
        hs.stores hst
      · exact (h.active hst).imp hearned fun hp => hp.suffix hgrow
      · simp at hst
      · cases hst
      · rw [ownMilestones_applied hk hr own hacc]
        obtain hd | hd | hd := activation_earned h hst
        · exact .inl hd
        · exact .inl ⟨hreal hd.1, List.mem_append_right _ hd.2⟩
        · exact .inr hd
    · have hbelow : row.Stores .active ∨ row.Stores .probation ∨ row.Stores .dormant →
          (row'.lastRealDownloadAt.isSome = true ∧
            .downloaded ∈ ownMilestones row.id (noteMilestones log s w)) ∨
          .revived ∈ ownMilestones row.id (noteMilestones log s w) := by
        rintro (hst | hst)
        · exact (h.active hst).imp hearned fun hp => hgrow.subset hp.revived
        · exact (h.lower hst).imp hearned fun hrev => hgrow.subset hrev
      have hstate : ∀ state, state = .probation ∨ state = .dormant → row'.Stores state →
          (row'.lastRealDownloadAt.isSome = true ∧
            .downloaded ∈ ownMilestones row.id (noteMilestones log s w)) ∨
          .revived ∈ ownMilestones row.id (noteMilestones log s w) := by
        intro state hlow hst
        obtain hst | hst | ⟨-, hrev⟩ | ⟨now, event, cadence, draw, rfl, own, hacc, rfl, hst⟩ :=
          hs.stores hst
        · obtain rfl | rfl := hlow
          · exact hbelow (.inr (.inl hst))
          · exact hbelow (.inr (.inr hst))
        · obtain rfl | rfl := hlow <;> simp at hst
        · exact .inr (revived_mem_ownMilestones hk hr hrev)
        · have hprior := HealthInput.becomes_lower
            (i := row.healthInput (s.scored now event) event cadence now)
            (hlow.imp (fun h => Eq.trans hst h) (fun h => Eq.trans hst h))
          have hseen := row.stores_seenLifecycle
          obtain hp | hp | hp := hprior
          · exact hbelow (.inl ((show row.seenLifecycle = _ from hp) ▸ hseen))
          · exact hbelow (.inr (.inl ((show row.seenLifecycle = _ from hp) ▸ hseen)))
          · exact hbelow (.inr (.inr ((show row.seenLifecycle = _ from hp) ▸ hseen)))
      rintro (hst | hst)
      · exact hstate .probation (.inl rfl) hst
      · exact hstate .dormant (.inr rfl) hst

/-- An `ACTIVE` node had a real download, or its score promoted it out of `PROBATION` after
a revival put it there. -/
theorem active_downloaded_or_promoted (ws : List (Write F)) :
    ∀ row ∈ (Store.empty.writes ws).nodes, row.lifecycleState = .active →
      (row.lastRealDownloadAt.isSome = true ∧
        .downloaded ∈ ownMilestones row.id (milestones ws)) ∨
      PromotedAfterRevival (ownMilestones row.id (milestones ws)) :=
  fun row hr h => (standingEarned_milestones ws row hr).active (.inl h)

/-- A node that never downloaded is revived by hand and answers one HTTP probe. -/
def promotedByScore : List (Write ℚ) := [
  .ingestOne 0 sampleProxy "node" 1,
  .reviveNode (minutes 1) "node",
  .applyTestEvent (minutes 2) (sampleEvent "first" .http .success) defaultCadence 0]

theorem active_without_download :
    ¬ ∀ (ws : List (Write ℚ)), ∀ row ∈ (Store.empty.writes ws).nodes,
      row.lifecycleState = .active → row.lastRealDownloadAt.isSome = true := by
  intro h
  have hall := h promotedByScore
  have hex : ((Store.empty.writes promotedByScore).nodes.any fun row =>
      row.lifecycleState = .active && row.lastRealDownloadAt.isNone) = true := by decide +kernel
  obtain ⟨row, hr, hrow⟩ := List.any_eq_true.mp hex
  simp only [Bool.and_eq_true, decide_eq_true_eq] at hrow
  have := hall row hr hrow.1
  simp_all

theorem active_downloaded_or_promoted_promotedByScore :
    ∃ row ∈ (Store.empty.writes promotedByScore).nodes, row.lifecycleState = .active ∧
      ((row.lastRealDownloadAt.isSome = true ∧
        .downloaded ∈ ownMilestones row.id (milestones promotedByScore)) ∨
      PromotedAfterRevival (ownMilestones row.id (milestones promotedByScore))) := by
  have hex : ((Store.empty.writes promotedByScore).nodes.any fun row =>
      row.lifecycleState = .active) = true := by decide +kernel
  obtain ⟨row, hr, hrow⟩ := List.any_eq_true.mp hex
  have active : row.lifecycleState = .active := by simpa using hrow
  exact ⟨row, hr, active, active_downloaded_or_promoted promotedByScore row hr active⟩

end ProxyFleet
