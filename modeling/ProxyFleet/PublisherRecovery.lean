import ProxyFleet.PublisherStops

/-!
# Recovery of the publisher

A publication can stop at every step. Where every stop is harmless, every later
publication reaches the remote branch, also when its first push is rejected. Where a
stop leaves uncommitted changes in the clone, or jams the repository, every later
publication ends at its rebase or before.
-/
namespace ProxyFleet

open ObservedRuns

namespace Publisher

variable {s : Publisher} {call : PublishCall}

section Runs

/-- Commits of other writers leave a prepared call prepared. -/
theorem Prepared.grow {remote : List Commit} {clone : Option Clone}
    (h : Prepared remote call clone) (ids : List ℕ) :
    Prepared (remote ++ ids.map .other) call clone := by
  cases hphase : call.phase <;> simp only [Prepared, hphase] at h ⊢
  case snapshotRaw | snapshotEncoded | preparing =>
    intro r hr
    obtain ⟨hsettled, base, hbranched⟩ := h r hr
    exact ⟨hsettled, base, hbranched.grow ids⟩
  case rebasing | rerebasing =>
    obtain ⟨r, hclone, hstate, base, hbranched, hfetched⟩ := h
    exact ⟨r, hclone, hstate, base, hbranched.grow ids, hfetched⟩
  case fetching | refetching =>
    obtain ⟨r, hclone, hstate, base, hbranched⟩ := h
    exact ⟨r, hclone, hstate, base, hbranched.grow ids⟩
  all_goals
    obtain ⟨r, hclone, hstate, hbranched⟩ := h
    exact ⟨r, hclone, hstate, hbranched.grow ids⟩

/-- Only a killed command jams the repository. -/
theorem jammed_advance (s : Publisher) : (step s .advance).jammed = s.jammed := by
  cases hcall : s.call with
  | none => simp only [step, hcall]
  | some call =>
    simp only [step, hcall]
    split
    · rw [jammed_control]
    · rw [jammed_control, jammed_effect]

theorem ready_step {event : PublishEvent} (hclear : s.jammed = false)
    (hgoes : event.isStop = false) (h : Ready s) : Ready (step s event) := by
  cases event with
  | begin snapshot =>
    cases hcall : s.call with
    | some call => simpa [step, hcall] using h
    | none =>
      have hresting : Resting s.remote s.clone := by simpa [Ready, hcall] using h
      simp only [step, hcall]
      split
      · simpa [Ready, hcall] using hresting
      · exact hresting
  | advance =>
    cases hcall : s.call with
    | none => simpa [step, hcall] using h
    | some call =>
      have hprepared : Prepared s.remote call s.clone := by simpa [Ready, hcall] using h
      rcases advance_spec hcall hclear hprepared with ⟨call', hnext⟩ | hend | hend
      · rw [Ready, hnext.here]
        exact hnext.prepared
      · rw [Ready, hend.here]
        exact hend.resting
      · rw [Ready, hend.here]
        exact hend.resting
  | fail outcome => cases hgoes
  | crash outcome => cases hgoes
  | others ids =>
    cases hcall : s.call with
    | some call =>
      have hprepared : Prepared s.remote call s.clone := by simpa [Ready, hcall] using h
      simpa [step, Ready, hcall] using hprepared.grow ids
    | none =>
      have hresting : Resting s.remote s.clone := by simpa [Ready, hcall] using h
      simp only [step, Ready, hcall]
      intro r hr
      obtain ⟨hsettled, base, hbranched⟩ := hresting r hr
      exact ⟨hsettled, base, hbranched.grow ids⟩

theorem recoverable_step {event : PublishEvent} (harmless : StopsHarmless s event)
    (h : Recoverable s) : Recoverable (step s event) := by
  cases event with
  | begin snapshot =>
    refine ⟨?_, ready_step h.clear rfl h.ready⟩
    cases hcall : s.call with
    | some call =>
      simp only [step, hcall]
      exact h.clear
    | none =>
      simp only [step, hcall]
      split <;> exact h.clear
  | advance => exact ⟨(jammed_advance s).trans h.clear, ready_step h.clear rfl h.ready⟩
  | fail outcome => exact recoverable_fail h harmless
  | crash outcome => exact recoverable_crash h harmless
  | others ids => exact ⟨h.clear, ready_step h.clear rfl h.ready⟩

/-- A step that does not fail by itself, or commits of other writers that do not overtake
the second push. -/
def Undisturbed (s : Publisher) : PublishEvent → Prop
  | .advance => True
  | .others _ => ∀ call ∈ s.call, call.phase.retrying = false
  | _ => False

/-- The call publishes this snapshot and cannot be stopped, or has published it. -/
def OnCourse (feed : Feed) (s : Publisher) : Prop :=
  match s.call with
  | some call => call.feed = feed ∧ s.jammed = false ∧ Prepared s.remote call s.clone ∧
    Current s call
  | none => s.result.isSome = true ∧ tree s.remote = feed.files

theorem onCourse_step {feed : Feed} {event : PublishEvent} (hevent : Undisturbed s event)
    (h : OnCourse feed s) : OnCourse feed (step s event) := by
  cases event with
  | advance =>
    cases hcall : s.call with
    | none => simpa [step, hcall] using h
    | some call =>
      obtain ⟨rfl, hclear, hprepared, hcurrent⟩ : call.feed = feed ∧ s.jammed = false ∧
          Prepared s.remote call s.clone ∧ Current s call := by simpa [OnCourse, hcall] using h
      rcases advance_spec hcall hclear hprepared with ⟨call', hnext⟩ | hend | hend
      · rw [OnCourse, hnext.here]
        exact ⟨hnext.feed, (jammed_advance s).trans hclear, hnext.prepared,
          hnext.current hcurrent⟩
      · rw [OnCourse, hend.here]
        exact ⟨hend.result, hend.reached⟩
      · exact absurd hcurrent hend.overtaken
  | others ids =>
    cases hcall : s.call with
    | some call =>
      obtain ⟨hfeed, hclear, hprepared, -⟩ : call.feed = feed ∧ s.jammed = false ∧
          Prepared s.remote call s.clone ∧ Current s call := by simpa [OnCourse, hcall] using h
      simp only [step, OnCourse, hcall]
      refine ⟨hfeed, hclear, hprepared.grow ids, ?_⟩
      intro hretrying
      have := hevent call (by rw [hcall]; rfl)
      rw [hretrying] at this
      cases this
    | none =>
      obtain ⟨hresult, hreached⟩ : s.result.isSome = true ∧ tree s.remote = feed.files := by
        simpa [OnCourse, hcall] using h
      simp only [step, OnCourse, hcall]
      refine ⟨hresult, ?_⟩
      rw [tree_append_others, hreached]
      intro c hc
      obtain ⟨id, -, rfl⟩ := List.mem_map.mp hc
      exact ⟨id, rfl⟩
  | begin snapshot => exact hevent.elim
  | fail outcome => exact hevent.elim
  | crash outcome => exact hevent.elim

/-- The steps that the call in progress still has before it. -/
def remaining (s : Publisher) : ℕ := (s.call.map fun call => call.phase.rank + 1).getD 0

def isAdvance : PublishEvent → Bool
  | .advance => true
  | _ => false

theorem remaining_step {feed : Feed} {event : PublishEvent} (hevent : Undisturbed s event)
    (h : OnCourse feed s) :
    remaining (step s event) ≤ remaining s - if isAdvance event then 1 else 0 := by
  cases event with
  | advance =>
    cases hcall : s.call with
    | none => simp [step, remaining, hcall]
    | some call =>
      obtain ⟨-, hclear, hprepared, -⟩ : call.feed = feed ∧ s.jammed = false ∧
          Prepared s.remote call s.clone ∧ Current s call := by simpa [OnCourse, hcall] using h
      rcases advance_spec hcall hclear hprepared with ⟨call', hnext⟩ | hend | hend
      · have hrank := hnext.rank
        simp only [remaining, hnext.here, hcall, Option.map_some, Option.getD_some, isAdvance,
          if_true]
        omega
      · simp [remaining, hend.here]
      · simp [remaining, hend.here]
  | others ids => simp [step, remaining, isAdvance]
  | begin snapshot => exact hevent.elim
  | fail outcome => exact hevent.elim
  | crash outcome => exact hevent.elim

/-- Enough steps bring an undisturbed call to its end, with the snapshot on the remote
branch. -/
theorem onCourse_run {feed : Feed} {later : List PublishEvent}
    (hlater : Admitted step Undisturbed s later) (h : OnCourse feed s)
    (hsteps : remaining s ≤ later.countP isAdvance) :
    (run step s later).call = none ∧ OnCourse feed (run step s later) := by
  induction later generalizing s with
  | nil =>
    have hzero : remaining s = 0 := by simpa using hsteps
    refine ⟨?_, h⟩
    cases hcall : s.call with
    | none => simp [hcall]
    | some call => simp [remaining, hcall] at hzero
  | cons event later ih =>
    have hstep := remaining_step hlater.1 h
    rw [List.countP_cons] at hsteps
    exact ih hlater.2 (onCourse_step hlater.1 h) (by omega)

/-- Every later call with a snapshot publishes it, unless a step of it fails by itself. -/
def Recovers (s : Publisher) : Prop :=
  ∀ snapshot : PublicationSnapshot, snapshot.rawConfigs ≠ [] →
    ∀ later, Admitted step Undisturbed (step s (.begin snapshot)) later →
      14 ≤ later.countP isAdvance →
        (run step (step s (.begin snapshot)) later).call = none ∧
          (run step (step s (.begin snapshot)) later).result.isSome = true ∧
          tree (run step (step s (.begin snapshot)) later).remote =
            (render snapshot.rawConfigs).files

theorem recovers_of_resting (hidle : s.call = none) (hclear : s.jammed = false)
    (h : Resting s.remote s.clone) : s.Recovers := by
  intro snapshot hsnapshot later hlater hsteps
  have hbegin : step s (.begin snapshot) =
      { s with
        call := some ⟨snapshot.rawConfigs, hsnapshot, .snapshotRaw, false, false, false⟩
        result := none } := by
    simp [step, hidle, hsnapshot]
  have hcourse : OnCourse (render snapshot.rawConfigs) (step s (.begin snapshot)) := by
    rw [hbegin]
    exact ⟨rfl, hclear, h, fun hretrying => by cases hretrying⟩
  have hremaining : remaining (step s (.begin snapshot)) = 14 := by
    rw [hbegin]
    rfl
  obtain ⟨hend, hreached⟩ := onCourse_run hlater hcourse (by rw [hremaining]; exact hsteps)
  refine ⟨hend, ?_⟩
  simpa [OnCourse, hend] using hreached

end Runs

section Blocked

/-- The repository is jammed, or the clone has uncommitted changes. -/
def Barred (s : Publisher) : Prop :=
  s.jammed = true ∨ ∃ r, s.clone = some r ∧ r.uncommitted = true

/-- No rebase can start, and no call is past its first one. -/
structure Blocked (s : Publisher) : Prop where
  barred : s.Barred
  early : ∀ call ∈ s.call, PublishPhase.rebasing.rank ≤ call.phase.rank

theorem Barred.onClone (h : s.Barred) {f : Clone → Clone}
    (hf : ∀ r : Clone, r.uncommitted = true → (f r).uncommitted = true) :
    (s.onClone f).Barred := by
  refine h.imp id ?_
  rintro ⟨r, hclone, hdirty⟩
  exact ⟨f r, by simp [Publisher.onClone, hclone], hf r hdirty⟩

theorem rebaseOrAbort_dirty {r : Clone} (h : r.uncommitted = true) :
    r.canRebase = false ∧ r.rebaseOrAbort.uncommitted = true := by
  have hcan : r.canRebase = false := by simp [Clone.canRebase, h]
  refine ⟨hcan, ?_⟩
  rw [Clone.rebaseOrAbort, if_neg (by simp [hcan])]
  exact h

/-- The steps up to the first rebase neither clean the clone nor push. -/
theorem effect_barred (h : s.Barred) (hearly : PublishPhase.rebasing.rank ≤ call.phase.rank) :
    (s.effect call).Barred ∧ (s.effect call).remote = s.remote := by
  cases hphase : call.phase <;> rw [hphase] at hearly <;> simp only [effect, hphase]
  case snapshotRaw | snapshotEncoded => exact ⟨h, trivial⟩
  case preparing =>
    refine ⟨h.imp id ?_, trivial⟩
    rintro ⟨r, hclone, hdirty⟩
    exact ⟨r, by simp [hclone], hdirty⟩
  case fetching => exact ⟨h.onClone fun _ hdirty => hdirty, rfl⟩
  case rebasing => exact ⟨h.onClone fun _ hdirty => (rebaseOrAbort_dirty hdirty).2, rfl⟩
  all_goals simp [PublishPhase.rank] at hearly

theorem leave_barred (h : s.Barred) (hearly : PublishPhase.rebasing.rank ≤ call.phase.rank)
    (outcome : Outcome) :
    (s.leave call outcome).Barred ∧ (s.leave call outcome).remote = s.remote := by
  unfold leave
  split
  · exact ⟨h, rfl⟩
  · cases outcome with
    | untouched => exact ⟨h, rfl⟩
    | completed => exact effect_barred h hearly
    | interrupted =>
      cases hphase : call.phase <;> rw [hphase] at hearly <;> simp only
      case snapshotRaw | snapshotEncoded | preparing | fetching => exact ⟨h, trivial⟩
      case rebasing => exact ⟨h.onClone fun _ hdirty => hdirty, rfl⟩
      all_goals simp [PublishPhase.rank] at hearly
    | jammed => exact ⟨h.imp_left fun hjammed => by simp [hjammed], rfl⟩

theorem abort_barred (h : s.Barred) (call : PublishCall) :
    (s.abort call).Barred ∧ (s.abort call).remote = s.remote := by
  unfold abort
  split
  · exact ⟨h.onClone fun _ hdirty => hdirty, rfl⟩
  · exact ⟨h.onClone fun _ hdirty => hdirty, rfl⟩
  · exact ⟨h, rfl⟩

theorem refuse_early (hearly : PublishPhase.rebasing.rank ≤ call.phase.rank) :
    refuse call = .finish none := by
  unfold refuse
  split
  · rename_i hphase
    rw [hphase] at hearly
    simp [PublishPhase.rank] at hearly
  · rfl

/-- A barred call goes on up to the rebase at most, and ends there. -/
theorem advance_barred (hcall : s.call = some call) (h : s.Barred)
    (hearly : PublishPhase.rebasing.rank ≤ call.phase.rank) :
    ∃ (s' : Publisher) (control : Control), step s .advance = s'.control control ∧ s'.Barred ∧
      s'.remote = s.remote ∧ (control = .finish none ∨
        ∃ call', control = .next call' ∧ PublishPhase.rebasing.rank ≤ call'.phase.rank) := by
  cases hrefused : s.refuses call with
  | true =>
    refine ⟨s, .finish none, ?_, h, rfl, Or.inl rfl⟩
    simp [step, hcall, hrefused, refuse_early hearly]
  | false =>
    obtain ⟨hbarred, hremote⟩ := effect_barred h hearly
    have hstep : step s .advance = (s.effect call).control
        (if s.succeeds call then s.proceed call else refuse call) := by
      simp [step, hcall, hrefused]
    refine ⟨s.effect call, _, hstep, hbarred, hremote, ?_⟩
    cases hphase : call.phase <;> rw [hphase] at hearly
    case rebasing =>
      -- The rebase is not refused, so the clone is what bars it.
      obtain hjammed | ⟨r, hclone, hdirty⟩ := h
      · simp [refuses, hjammed, hphase, PublishPhase.changesRepository] at hrefused
      · left
        simp [succeeds, hphase, hclone, (rebaseOrAbort_dirty hdirty).1, refuse]
    case snapshotRaw | snapshotEncoded | preparing | fetching =>
      right
      simp [succeeds, proceed, hphase, PublishPhase.rank]
    all_goals simp [PublishPhase.rank] at hearly

theorem blocked_step (h : s.Blocked) (event : PublishEvent) :
    (step s event).Blocked ∧
      ∃ ids : List ℕ, (step s event).remote = s.remote ++ ids.map Commit.other := by
  have hsame : ∀ s' : Publisher, s'.Barred ∧ s'.remote = s.remote → ∀ result,
      (s'.control (.finish result)).Blocked ∧
        ∃ ids : List ℕ,
          (s'.control (.finish result)).remote = s.remote ++ ids.map Commit.other := by
    intro s' hs' result
    exact ⟨⟨hs'.1, fun _ hcall => by cases hcall⟩, [], by simpa [control] using hs'.2⟩
  cases hcall : s.call with
  | none =>
    cases event with
    | begin snapshot =>
      simp only [step, hcall]
      split
      · exact ⟨⟨h.barred, fun _ hsome => by simp at hsome⟩, [], by simp⟩
      · refine ⟨⟨h.barred, ?_⟩, [], by simp⟩
        intro call' hsome
        cases hsome
        simp [PublishPhase.rank]
    | others ids => exact ⟨⟨h.barred, h.early⟩, ids, rfl⟩
    | advance | fail outcome | crash outcome =>
      simp only [step, hcall]
      exact ⟨h, [], by simp⟩
  | some call =>
    have hearly := h.early call (by rw [hcall]; rfl)
    cases event with
    | begin snapshot =>
      simp only [step, hcall]
      exact ⟨h, [], by simp⟩
    | others ids => exact ⟨⟨h.barred, h.early⟩, ids, rfl⟩
    | advance =>
      obtain ⟨s', control, hstep, hbarred, hremote, rfl | ⟨call', rfl, hnext⟩⟩ :=
        advance_barred hcall h.barred hearly
      · rw [hstep]
        exact hsame _ ⟨hbarred, hremote⟩ none
      · rw [hstep]
        refine ⟨⟨hbarred, ?_⟩, [], by simpa [control] using hremote⟩
        intro call'' hsome
        cases hsome
        exact hnext
    | fail outcome =>
      obtain ⟨hbarred, hremote⟩ := leave_barred h.barred hearly outcome
      obtain ⟨hbarred', hremote'⟩ := abort_barred hbarred call
      simp only [step, hcall, refuse_early hearly]
      exact hsame _ ⟨hbarred', hremote'.trans hremote⟩ none
    | crash outcome =>
      obtain ⟨hbarred, hremote⟩ := leave_barred h.barred hearly outcome
      simp only [step, hcall]
      exact hsame _ ⟨hbarred, hremote⟩ none

/-- What bars the rebase is there for good: the publisher never pushes again. -/
theorem blocked_run (h : s.Blocked) (events : List PublishEvent) :
    ∃ ids : List ℕ, (run step s events).remote = s.remote ++ ids.map Commit.other := by
  induction events generalizing s with
  | nil => exact ⟨[], by simp⟩
  | cons event events ih =>
    obtain ⟨hblocked, ids, hremote⟩ := blocked_step h event
    obtain ⟨later, hlater⟩ := ih hblocked
    refine ⟨ids ++ later, ?_⟩
    rw [run_cons, hlater, hremote, List.append_assoc, List.map_append]

end Blocked

end Publisher

section CutOff

/-- A remote branch on which both files are published. -/
def seededRemote : List Commit := [.published ⟨some [10], some [10]⟩]

def sampleSnapshot : PublicationSnapshot := ⟨1, [['a']]⟩

/-- A first publication that dies after it has written the two files into its clone. -/
def cutOff : List PublishEvent :=
  .begin sampleSnapshot :: List.replicate 7 .advance ++ [.crash .untouched]

/-- A publication whose fetch fails, one whose first push is overtaken, and one that dies in a
push whose answer is lost. -/
def stoppedPublications : List PublishEvent :=
  .begin sampleSnapshot :: List.replicate 3 .advance ++ [.fail .untouched] ++
    (.begin sampleSnapshot :: List.replicate 10 .advance) ++ [.others [1]] ++
    List.replicate 4 .advance ++ (.begin ⟨2, [['b']]⟩ :: List.replicate 10 .advance) ++
    [.crash .interrupted, .begin sampleSnapshot]

end CutOff

end ProxyFleet
