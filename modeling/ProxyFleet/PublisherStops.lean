import ProxyFleet.PublisherSteps

/-!
# Stops of a publication

A publication can stop at every step, because the step fails or because the process dies.
Whatever the outcome, the clone and the remote branch keep a common base. A stop is harmless
if it jams nothing, cuts off no rebase, and does not fall between the first change of a
published file and the commit. It then leaves the clone settled.
-/
namespace ProxyFleet

/-- A step of the call fails or is cut off. -/
def PublishEvent.isStop : PublishEvent → Bool
  | .fail _ | .crash _ => true
  | _ => false

namespace Publisher

variable {s : Publisher} {call : PublishCall}

section Histories

theorem Prepared.branched {remote : List Commit} {clone : Option Clone}
    (h : Prepared remote call clone) {r : Clone} (hclone : clone = some r) :
    ∃ base, r.BranchedAt base remote ∧
      (call.phase = .rebasing ∨ call.phase = .rerebasing → base <+: r.tracking) := by
  subst hclone
  cases hphase : call.phase <;> simp only [Prepared, hphase] at h
  case snapshotRaw | snapshotEncoded | preparing =>
    obtain ⟨-, base, hbranched⟩ := h r rfl
    exact ⟨base, hbranched, by simp⟩
  case rebasing | rerebasing =>
    obtain ⟨r', hr, -, base, hbranched, hfetched⟩ := h
    cases hr
    exact ⟨base, hbranched, fun _ => hfetched⟩
  case fetching | refetching =>
    obtain ⟨r', hr, -, base, hbranched⟩ := h
    cases hr
    exact ⟨base, hbranched, by simp⟩
  all_goals
    obtain ⟨r', hr, -, hbranched⟩ := h
    cases hr
    exact ⟨r.tracking, hbranched, by simp⟩

/-- The clone and the remote branch have a common base. -/
def Branched (s : Publisher) : Prop := ∀ r ∈ s.clone, ∃ base, r.BranchedAt base s.remote

theorem branched_of_head {r : Clone} {remote : List Commit} (hhead : r.head = remote)
    (htracking : r.tracking <+: remote) : r.BranchedAt remote remote :=
  ⟨⟨[], by simp [hhead], by simp⟩, ⟨[], by simp, by simp⟩, htracking⟩

theorem branched_onClone {f : Clone → Clone}
    (h : ∀ r, s.clone = some r → ∃ base, (f r).BranchedAt base s.remote) :
    Branched (s.onClone f) := by
  intro r' hr'
  obtain ⟨r, hr, rfl⟩ := Option.map_eq_some_iff.mp hr'
  exact h r hr

theorem branched_push (h : Branched s) : Branched s.push := by
  intro r' hr'
  unfold push at hr' ⊢
  split at hr'
  · split at hr'
    · rename_i r hclone hfast
      cases hr'
      simp only [hfast, if_true]
      exact ⟨r.head, branched_of_head rfl (List.prefix_refl _)⟩
    · rename_i r hclone hslow
      simp only [hslow]
      exact h r' hr'
  · rename_i hclone
    exact h r' hr'

/-- A push that is not noted leaves a clone whose remote-tracking branch is behind. -/
theorem branched_push_unnoted (h : Branched s) : Branched { s.push with clone := s.clone } := by
  intro r hr
  have hclone : s.clone = some r := hr
  obtain ⟨base, hbranched⟩ := h r hr
  simp only [push, hclone]
  split
  · rename_i hfast
    refine ⟨r.head, branched_of_head rfl ?_⟩
    exact hbranched.tracking.trans (List.isPrefixOf_iff_prefix.mp hfast)
  · exact ⟨base, hbranched⟩

/-- A change of the files alone keeps the histories. -/
theorem Branched.onClone (h : Branched s) {f : Clone → Clone}
    (hf : ∀ r, (f r).head = r.head ∧ (f r).tracking = r.tracking) : Branched (s.onClone f) := by
  apply branched_onClone
  intro r hclone
  obtain ⟨base, hbranched⟩ := h r (by rw [hclone]; rfl)
  obtain ⟨hhead, htracking⟩ := hf r
  refine ⟨base, ?_, hbranched.others, ?_⟩
  · rw [hhead]
    exact hbranched.own
  · rw [htracking]
    exact hbranched.tracking

theorem branched_rebase {r : Clone} {base remote : List Commit} (h : r.BranchedAt base remote)
    (hfetched : base <+: r.tracking) : ∃ base', r.rebaseOrAbort.BranchedAt base' remote := by
  unfold Clone.rebaseOrAbort
  split
  · obtain ⟨-, hrebased⟩ := h.rebased hfetched
    exact ⟨r.tracking, hrebased.own, hrebased.others, hrebased.tracking⟩
  · exact ⟨base, h.own, h.others, h.tracking⟩

theorem branched_effect (h : Prepared s.remote call s.clone) : Branched (s.effect call) := by
  have hall : Branched s := fun r hr => (h.branched hr).imp fun _ hb => hb.1
  cases hphase : call.phase <;> simp only [effect, hphase]
  case snapshotRaw | snapshotEncoded | counting => exact hall
  case preparing =>
    intro r hr
    cases hclone : s.clone with
    | none =>
      rw [hclone] at hr
      cases hr
      exact ⟨s.remote, Clone.fresh_branchedAt _⟩
    | some r' =>
      rw [hclone] at hr
      cases hr
      exact hall r' (by rw [hclone]; rfl)
  case fetching | refetching =>
    apply branched_onClone
    intro r hclone
    obtain ⟨base, hbranched, -⟩ := h.branched hclone
    exact ⟨base, hbranched.fetched.1⟩
  case rebasing | rerebasing =>
    apply branched_onClone
    intro r hclone
    obtain ⟨base, hbranched, hfetched⟩ := h.branched hclone
    exact branched_rebase hbranched (hfetched (by simp [hphase]))
  case writingRaw | writingEncoded | adding => exact hall.onClone fun r => ⟨rfl, rfl⟩
  case committing =>
    apply branched_onClone
    intro r hclone
    obtain ⟨base, hbranched, -⟩ := h.branched hclone
    exact ⟨base, hbranched.commit⟩
  case pushing | repushing => exact branched_push hall

theorem branched_leave (h : Prepared s.remote call s.clone) (outcome : Outcome) :
    Branched (s.leave call outcome) := by
  have hall : Branched s := fun r hr => (h.branched hr).imp fun _ hb => hb.1
  unfold leave
  split
  · exact hall
  · cases outcome with
    | untouched | jammed => exact hall
    | completed => exact branched_effect h
    | interrupted =>
      cases hphase : call.phase <;> simp only
      case rebasing | rerebasing => exact hall.onClone fun r => ⟨rfl, rfl⟩
      case pushing | repushing => exact branched_push_unnoted hall
      all_goals exact hall

theorem branched_abort (h : Branched s) (call : PublishCall) : Branched (s.abort call) := by
  unfold abort
  split
  · exact h.onClone fun r => ⟨rfl, rfl⟩
  · exact h.onClone fun r => ⟨rfl, rfl⟩
  · exact h

end Histories

section Stops

/-- The first write does no harm by itself: git does not track the file, and with the second
one as it is the two do not look published. -/
def LooseRaw (r : Clone) (feed : Feed) : Prop :=
  r.index.activeRaw = none ∧ r.worktree.active ≠ some feed.encoded

instance (r : Clone) (feed : Feed) : Decidable (LooseRaw r feed) :=
  inferInstanceAs (Decidable (_ ∧ _))

/-- The current step can stop like this without harm to later calls. -/
def Harmless (s : Publisher) (call : PublishCall) (outcome : Outcome) (dies : Bool) : Prop :=
  (outcome = .jammed → call.phase.changesRepository = false) ∧
  match call.phase with
  | .rebasing | .rerebasing => dies = true → outcome ≠ .interrupted
  | .writingRaw => outcome = .completed →
    ∀ r ∈ s.clone, r.worktree.activeRaw = some call.feed.raw ∨ LooseRaw r call.feed
  | .writingEncoded => ∀ r ∈ s.clone,
    if outcome = .completed then
      call.repoChanged = false ∧ r.worktree.active = some call.feed.encoded
    else call.repoChanged = false ∨ LooseRaw r call.feed
  | .adding => False
  | .committing => outcome = .completed
  | _ => True

/-- A call in progress stops without harm, if it stops. -/
def StopsHarmless (s : Publisher) : PublishEvent → Prop
  | .fail outcome => ∀ call ∈ s.call, s.Harmless call outcome false
  | .crash outcome => ∀ call ∈ s.call, s.Harmless call outcome true
  | _ => True

instance (s : Publisher) (call : PublishCall) (outcome : Outcome) (dies : Bool) :
    Decidable (s.Harmless call outcome dies) := by
  unfold Harmless
  cases call.phase <;> infer_instance

instance (s : Publisher) : DecidablePred s.StopsHarmless := fun event => by
  cases event <;> unfold StopsHarmless <;> infer_instance

/-- Nothing of an interrupted write stands between the files and the index. -/
theorem settled_of_looseRaw {r : Clone} {feed : Feed} (idle : r.rebasing = false)
    (staged : r.index = tree r.head) (written : r.worktree.activeRaw = some feed.raw)
    (cleanActive : r.index.active ≠ none → r.worktree.active = r.index.active)
    {configs : List Text} (hfeed : feed = render configs) (loose : LooseRaw r feed) :
    r.Settled where
  idle := idle
  staged := staged
  cleanRaw hraw := absurd loose.1 hraw
  cleanActive := cleanActive
  published := by
    intro others _ hfiles
    -- The encoded file is a function of the raw one.
    have hraw : (render others).raw = feed.raw :=
      Option.some.inj ((congrArg PublishedFiles.activeRaw hfiles).symm.trans written)
    have hencoded : (render others).encoded = feed.encoded := by
      subst hfeed
      exact congrArg (fun raw => utf8Encode (Base64.encode Base64.standard true raw ++ ['\n'])) hraw
    refine absurd ?_ loose.2
    rw [hfiles, ← hencoded]
    rfl

/-- Outside of the writes and the commit the clone is settled. -/
theorem Prepared.settled {remote : List Commit} {clone : Option Clone}
    (h : Prepared remote call clone)
    (hphase : call.phase ≠ .writingEncoded ∧ call.phase ≠ .adding ∧ call.phase ≠ .committing) :
    ∀ r ∈ clone, r.Settled := by
  rintro r rfl
  cases hcase : call.phase <;> simp only [Prepared, hcase] at h
  case writingEncoded | adding | committing => simp [hcase] at hphase
  case snapshotRaw | snapshotEncoded | preparing => exact (h r rfl).1
  case fetching | rebasing | writingRaw =>
    obtain ⟨r', hr, hsettled, -⟩ := h
    cases hr
    exact hsettled
  all_goals
    obtain ⟨r', hr, hpublished, -⟩ := h
    cases hr
    exact hpublished.settled

theorem settled_push (h : ∀ r ∈ s.clone, r.Settled) : ∀ r ∈ s.push.clone, r.Settled := by
  intro r' hr'
  unfold push at hr'
  split at hr'
  · next r hclone =>
    split at hr'
    · cases hr'
      exact (h r hclone).fetched _
    · exact h r' hr'
  · exact h r' hr'

/-- A step that is harmless with its whole effect leaves the clone settled. -/
theorem settled_effect (h : Prepared s.remote call s.clone) {dies : Bool}
    (harmless : s.Harmless call .completed dies) : ∀ r ∈ (s.effect call).clone, r.Settled := by
  intro r' hr'
  cases hphase : call.phase <;> simp only [effect, hphase] at hr'
  case snapshotRaw | snapshotEncoded | counting => exact h.settled (by simp [hphase]) r' hr'
  case preparing =>
    cases hclone : s.clone with
    | none =>
      rw [hclone] at hr'
      cases hr'
      exact Clone.fresh_settled _
    | some r =>
      rw [hclone] at hr'
      cases hr'
      exact h.settled (by simp [hphase]) r hclone
  case pushing | repushing => exact settled_push (h.settled (by simp [hphase])) r' hr'
  all_goals obtain ⟨r, hclone, rfl⟩ := Option.map_eq_some_iff.mp hr'
  case fetching | refetching => exact (h.settled (by simp [hphase]) r hclone).fetched _
  case rebasing | rerebasing =>
    have hsettled := h.settled (by simp [hphase]) r hclone
    obtain ⟨base, hbranched, hfetched⟩ := h.branched hclone
    have htree := (hbranched.rebased (hfetched (by simp [hphase]))).1
    rw [(hsettled.rebaseOrAbort_eq htree).2]
    exact hsettled.of_head htree
  case writingRaw =>
    have hsettled := h.settled (by simp [hphase]) r hclone
    simp only [Harmless, hphase] at harmless
    obtain hsame | hloose := harmless.2 trivial r hclone
    · rw [← hsame]
      exact hsettled
    · exact settled_of_looseRaw hsettled.idle hsettled.staged rfl hsettled.cleanActive rfl hloose
  case writingEncoded =>
    simp only [Prepared, hphase] at h
    obtain ⟨r', hr, hhalf, -⟩ := h
    obtain rfl : r = r' := Option.some.inj (hclone.symm.trans hr)
    simp only [Harmless, hphase, if_true] at harmless
    obtain ⟨hraw, hactive⟩ := harmless.2 r hclone
    have hsame := hhalf.unchanged_published call.nonempty
      (by simp [hraw, hactive, PublishCall.feed])
    exact hsame.2.symm ▸ hhalf.unchanged hraw
  case adding =>
    simp only [Harmless, hphase] at harmless
    exact harmless.2.elim
  case committing =>
    simp only [Prepared, hphase] at h
    obtain ⟨r', hr, hstaged, -⟩ := h
    obtain rfl : r = r' := Option.some.inj (hclone.symm.trans hr)
    exact hstaged.commit.2.settled

/-- Before a step that can stop without any effect the clone is settled. -/
theorem settled_untouched (h : Prepared s.remote call s.clone) {outcome : Outcome} {dies : Bool}
    (harmless : s.Harmless call outcome dies) (hunfinished : outcome ≠ .completed) :
    ∀ r ∈ s.clone, r.Settled := by
  intro r hclone
  by_cases hphase :
      call.phase ≠ .writingEncoded ∧ call.phase ≠ .adding ∧ call.phase ≠ .committing
  · exact h.settled hphase r hclone
  · cases hcase : call.phase <;> simp only [Harmless, hcase] at harmless <;>
      simp only [Prepared, hcase] at h
    case writingEncoded =>
      obtain ⟨r', hr, hhalf, -⟩ := h
      obtain rfl : r = r' := Option.some.inj (Eq.trans hclone.symm hr)
      have hnot := harmless.2 r hclone
      rw [if_neg hunfinished] at hnot
      obtain hraw | hloose := hnot
      · exact hhalf.unchanged hraw
      · exact settled_of_looseRaw hhalf.idle hhalf.staged hhalf.written hhalf.cleanActive rfl hloose
    case adding => exact harmless.2.elim
    case committing => exact absurd harmless.2 hunfinished
    all_goals simp [hcase] at hphase

/-- Aborting a rebase of a settled clone changes nothing. -/
theorem settled_abort (h : ∀ r ∈ s.clone, r.Settled) (call : PublishCall) :
    ∀ r ∈ (s.abort call).clone, r.Settled := by
  have hclone : (s.abort call).clone = s.clone := by
    unfold abort
    split
    all_goals try rfl
    all_goals
      show s.clone.map _ = s.clone
      cases hsome : s.clone with
      | none => rfl
      | some r =>
        have hidle := (h r hsome).idle
        rw [Option.map_some]
        cases r
        cases hidle
        rfl
  rw [hclone]
  exact h

/-- A process that dies without harm leaves the clone settled. -/
theorem settled_crash (hclear : s.jammed = false) (h : Prepared s.remote call s.clone)
    {outcome : Outcome} (harmless : s.Harmless call outcome true) :
    ∀ r ∈ (s.leave call outcome).clone, r.Settled := by
  unfold leave
  rw [if_neg (by simp [refuses, hclear])]
  cases outcome with
  | untouched => exact settled_untouched h harmless (by simp)
  | jammed => exact settled_untouched h harmless (by simp)
  | completed => exact settled_effect h harmless
  | interrupted =>
    have hbefore := settled_untouched h harmless (by simp)
    cases hphase : call.phase <;> simp only
    case rebasing | rerebasing =>
      simp only [Harmless, hphase] at harmless
      exact absurd rfl (harmless.2 trivial)
    all_goals exact hbefore

/-- A step that fails without harm leaves the clone settled once its rebase is aborted. -/
theorem settled_fail (hclear : s.jammed = false) (h : Prepared s.remote call s.clone)
    {outcome : Outcome} (harmless : s.Harmless call outcome false) :
    ∀ r ∈ ((s.leave call outcome).abort call).clone, r.Settled := by
  by_cases hcut : (call.phase = .rebasing ∨ call.phase = .rerebasing) ∧ outcome = .interrupted
  · obtain ⟨hphase, rfl⟩ := hcut
    have hbefore := settled_untouched h harmless (by simp)
    unfold leave
    rw [if_neg (by simp [refuses, hclear])]
    intro r' hr'
    rcases hphase with hphase | hphase
    all_goals
      simp only [abort, hphase, onClone, Option.map_map] at hr'
      obtain ⟨r, hclone, rfl⟩ := Option.map_eq_some_iff.mp hr'
      have hsettled := hbefore r hclone
      exact ⟨rfl, hsettled.staged, hsettled.cleanRaw, hsettled.cleanActive, hsettled.published⟩
  · refine settled_abort (settled_crash hclear h ?_) call
    refine ⟨harmless.1, ?_⟩
    cases hphase : call.phase <;> simp only [Harmless, hphase] at harmless ⊢
    case rebasing | rerebasing => exact fun _ hinterrupted => hcut ⟨by simp [hphase], hinterrupted⟩
    all_goals exact harmless.2

theorem jammed_effect (s : Publisher) (call : PublishCall) : (s.effect call).jammed = s.jammed := by
  unfold effect push
  split
  all_goals try rfl
  all_goals
    split
    · split <;> rfl
    · rfl

theorem jammed_control (s : Publisher) (c : Control) : (s.control c).jammed = s.jammed := by
  cases c <;> rfl

theorem jammed_abort (s : Publisher) (call : PublishCall) : (s.abort call).jammed = s.jammed := by
  unfold abort
  split <;> rfl

/-- Nothing but a killed command jams the repository. -/
theorem jammed_leave (hclear : s.jammed = false) {outcome : Outcome}
    (harmless : outcome = .jammed → call.phase.changesRepository = false) :
    (s.leave call outcome).jammed = false := by
  unfold leave
  rw [if_neg (by simp [refuses, hclear])]
  cases outcome with
  | untouched => exact hclear
  | completed => exact (jammed_effect s call).trans hclear
  | interrupted =>
    dsimp only
    split
    · exact hclear
    · exact hclear
    · show s.push.jammed = false
      unfold push
      split
      · split <;> exact hclear
      · exact hclear
    · show s.push.jammed = false
      unfold push
      split
      · split <;> exact hclear
      · exact hclear
    · exact hclear
  | jammed =>
    show (s.jammed || call.phase.changesRepository) = false
    rw [hclear, harmless rfl]
    rfl

/-- The first push fails, and what it did leaves the snapshot committed. -/
theorem leave_pushing {r : Clone} (hclone : s.clone = some r)
    (hpublished : r.Published call.feed) (hphase : call.phase = .pushing) (outcome : Outcome) :
    ∃ r', (s.leave call outcome).clone = some r' ∧ r'.Published call.feed := by
  unfold leave
  split
  · exact ⟨r, hclone, hpublished⟩
  · cases outcome with
    | untouched | jammed => exact ⟨r, hclone, hpublished⟩
    | completed =>
      simp only [effect, hphase, push, hclone]
      split
      · exact ⟨_, rfl, hpublished.settled.fetched _, hpublished.committed⟩
      · exact ⟨r, hclone, hpublished⟩
    | interrupted =>
      simp only [hphase]
      exact ⟨r, hclone, hpublished⟩

/-- The repository is not jammed, and a call in progress is prepared or the clone rests. -/
structure Recoverable (s : Publisher) : Prop where
  clear : s.jammed = false
  ready : Ready s

theorem recoverable_fail (h : Recoverable s) {outcome : Outcome}
    (harmless : StopsHarmless s (.fail outcome)) : Recoverable (step s (.fail outcome)) := by
  obtain ⟨hclear, h⟩ := h
  cases hcall : s.call with
  | none =>
    simp only [step, hcall]
    exact ⟨hclear, h⟩
  | some call =>
    have hprepared : Prepared s.remote call s.clone := by simpa [Ready, hcall] using h
    have hharmless : s.Harmless call outcome false := harmless call hcall
    have hbranched := branched_abort (branched_leave hprepared outcome) call
    have hkept : (step s (.fail outcome)).jammed = false := by
      simp only [step, hcall]
      rw [jammed_control, jammed_abort, jammed_leave hclear hharmless.1]
    refine ⟨hkept, ?_⟩
    by_cases hphase : call.phase = .pushing
    · obtain ⟨r, hclone, hpublished, -⟩ : ∃ r, s.clone = some r ∧ r.Published call.feed ∧
          r.BranchedAt r.tracking s.remote := by simpa [Prepared, hphase] using hprepared
      obtain ⟨r', hclone', hpublished'⟩ := leave_pushing hclone hpublished hphase outcome
      have habort : (s.leave call outcome).abort call = s.leave call outcome := by
        simp [abort, hphase]
      rw [habort] at hbranched
      simp only [step, hcall, refuse, hphase, control, Ready, habort]
      exact ⟨r', hclone', hpublished', hbranched r' hclone'⟩
    · have hend : refuse call = .finish none := by
        unfold refuse
        split
        · exact absurd ‹_› hphase
        · rfl
      have hstep : step s (.fail outcome) =
          ((s.leave call outcome).abort call).control (.finish none) := by
        simp [step, hcall, hend]
      rw [hstep]
      intro r hr
      exact ⟨settled_fail hclear hprepared hharmless r hr, hbranched r hr⟩

theorem recoverable_crash (h : Recoverable s) {outcome : Outcome}
    (harmless : StopsHarmless s (.crash outcome)) : Recoverable (step s (.crash outcome)) := by
  obtain ⟨hclear, h⟩ := h
  cases hcall : s.call with
  | none =>
    simp only [step, hcall]
    exact ⟨hclear, h⟩
  | some call =>
    have hprepared : Prepared s.remote call s.clone := by simpa [Ready, hcall] using h
    have hharmless : s.Harmless call outcome true := harmless call hcall
    have hstep : step s (.crash outcome) =
        { s.leave call outcome with call := none, result := none } := by simp [step, hcall]
    rw [hstep]
    refine ⟨jammed_leave hclear hharmless.1, fun r hr => ?_⟩
    exact ⟨settled_crash hclear hprepared hharmless r hr, branched_leave hprepared outcome r hr⟩

end Stops

end Publisher

end ProxyFleet
