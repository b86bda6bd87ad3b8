import ProxyFleet.SettledClones

/-!
# The steps of a publication

Every step of `publish` has a state of the clone in which it succeeds and from which
it leads to the state that the next step needs. The last push is the exception: it is
rejected if other writers pushed after the second fetch.
-/
namespace ProxyFleet

open LinearHistories

/-- The number of steps that may follow a phase. -/
def PublishPhase.rank : PublishPhase → ℕ
  | .snapshotRaw => 13
  | .snapshotEncoded => 12
  | .preparing => 11
  | .fetching => 10
  | .rebasing => 9
  | .writingRaw => 8
  | .writingEncoded => 7
  | .adding => 6
  | .committing => 5
  | .counting => 4
  | .pushing => 3
  | .refetching => 2
  | .rerebasing => 1
  | .repushing => 0

/-- Between the second fetch and the second push. -/
def PublishPhase.retrying : PublishPhase → Bool
  | .rerebasing | .repushing => true
  | _ => false

namespace Publisher

/-- Nothing of an earlier call is left in the clone, if there is one. -/
def Resting (remote : List Commit) (clone : Option Clone) : Prop :=
  ∀ r ∈ clone, r.Settled ∧ ∃ base, r.BranchedAt base remote

/-- The state of the clone in which a phase begins. -/
def Prepared (remote : List Commit) (call : PublishCall) (clone : Option Clone) : Prop :=
  match call.phase with
  | .snapshotRaw | .snapshotEncoded | .preparing => Resting remote clone
  | .fetching => ∃ r, clone = some r ∧ r.Settled ∧ ∃ base, r.BranchedAt base remote
  | .rebasing => ∃ r, clone = some r ∧ r.Settled ∧
    ∃ base, r.BranchedAt base remote ∧ base <+: r.tracking
  | .writingRaw => ∃ r, clone = some r ∧ r.Settled ∧ r.BranchedAt r.tracking remote
  | .writingEncoded => ∃ r, clone = some r ∧ r.HalfWritten call.feed call.repoChanged ∧
    r.BranchedAt r.tracking remote
  | .adding => ∃ r, clone = some r ∧ r.Written call.feed ∧ r.BranchedAt r.tracking remote
  | .committing => ∃ r, clone = some r ∧ r.Staged call.feed ∧ r.BranchedAt r.tracking remote
  | .counting | .pushing | .repushing => ∃ r, clone = some r ∧ r.Published call.feed ∧
    r.BranchedAt r.tracking remote
  | .refetching => ∃ r, clone = some r ∧ r.Published call.feed ∧ ∃ base, r.BranchedAt base remote
  | .rerebasing => ∃ r, clone = some r ∧ r.Published call.feed ∧
    ∃ base, r.BranchedAt base remote ∧ base <+: r.tracking

/-- A call is in progress and prepared, or the clone rests. -/
def Ready (s : Publisher) : Prop :=
  match s.call with
  | some call => Prepared s.remote call s.clone
  | none => Resting s.remote s.clone

/-- Nobody has pushed since the second fetch. -/
def Current (s : Publisher) (call : PublishCall) : Prop :=
  call.phase.retrying = true → ∀ r ∈ s.clone, r.tracking = s.remote

/-- The call goes on with its next step. -/
structure Continues (s : Publisher) (call : PublishCall) (s' : Publisher) (call' : PublishCall) :
    Prop where
  here : s'.call = some call'
  feed : call'.feed = call.feed
  rank : call'.phase.rank < call.phase.rank
  prepared : Prepared s'.remote call' s'.clone
  current : Current s call → Current s' call'

/-- The call returns its result, and the remote branch has the snapshot. -/
structure Succeeds (call : PublishCall) (s' : Publisher) : Prop where
  here : s'.call = none
  resting : Resting s'.remote s'.clone
  result : s'.result.isSome = true
  reached : tree s'.remote = call.feed.files

/-- The second push is rejected. -/
structure Rejected (s : Publisher) (call : PublishCall) (s' : Publisher) : Prop where
  here : s'.call = none
  resting : Resting s'.remote s'.clone
  overtaken : ¬Current s call

variable {s : Publisher} {call : PublishCall}

theorem resting_of_published {remote base : List Commit} {feed : Feed} {r : Clone}
    (h : r.Published feed) (hbase : r.BranchedAt base remote) : Resting remote (some r) := by
  intro r' hr'
  cases hr'
  exact ⟨h.settled, base, hbase⟩

section Advance

variable (hcall : s.call = some call) (hclear : s.jammed = false)

include hcall hclear

theorem step_advance :
    step s .advance =
      (s.effect call).control (if s.succeeds call then s.proceed call else refuse call) := by
  simp [step, hcall, refuses, hclear]

/-- The clone is pushed, and is then the remote branch. -/
theorem pushed {r : Clone} (hclone : s.clone = some r)
    (hpublished : r.Published call.feed) (hfast : s.remote.isPrefixOf r.head = true)
    (hfinish : call.phase = .pushing ∨ call.phase = .repushing) :
    Succeeds call (step s .advance) := by
  have hcan : s.canPush = true := by simp [canPush, hclone, hfast]
  have heffect : s.effect call =
      { s with remote := r.head, clone := some { r with tracking := r.head } } := by
    rcases hfinish with hphase | hphase <;> simp [effect, hphase, push, hclone, hfast]
  have hstep : step s .advance = (s.effect call).control (finished call true) := by
    rcases hfinish with hphase | hphase <;>
      simp [step_advance hcall hclear, succeeds, hphase, hcan, proceed]
  rw [hstep, heffect]
  refine ⟨rfl, ?_, rfl, hpublished.committed⟩
  intro r' hr'
  cases hr'
  refine ⟨⟨hpublished.settled.idle, hpublished.settled.staged, hpublished.settled.cleanRaw,
    hpublished.settled.cleanActive, hpublished.settled.published⟩, r.head, ?_⟩
  exact ⟨⟨[], by simp, by simp⟩, ⟨[], by simp [control, finished], by simp⟩, List.prefix_refl _⟩

omit hcall hclear in
/-- A push that is rejected although the clone grew from the remote-tracking branch was
overtaken by other writers. -/
theorem overtaken {r : Clone} (hbranched : r.BranchedAt r.tracking s.remote)
    (hslow : s.remote.isPrefixOf r.head = false) : r.tracking ≠ s.remote := by
  intro heq
  obtain ⟨own, hhead, -⟩ := hbranched.own
  have hprefix : s.remote.isPrefixOf r.head = true := by
    rw [List.isPrefixOf_iff_prefix, ← heq, hhead]
    exact List.prefix_append _ _
  rw [hslow] at hprefix
  cases hprefix

/-- The snapshot files are written, and nothing else changes. -/
theorem advance_snapshots (h : Resting s.remote s.clone)
    (hphase : call.phase = .snapshotRaw ∨ call.phase = .snapshotEncoded) :
    ∃ call', Continues s call (step s .advance) call' := by
  rcases hphase with hphase | hphase
  · refine ⟨{ call with
      phase := .snapshotEncoded
      changed := decide (s.snapshotDir.activeRaw ≠ some call.feed.raw) }, ?_⟩
    simp only [step_advance hcall hclear, effect, succeeds, proceed, hphase, control, if_true]
    exact ⟨rfl, rfl, by simp [hphase, PublishPhase.rank], h, fun _ hretrying => by cases hretrying⟩
  · refine ⟨{ call with
      phase := .preparing
      changed := call.changed || decide (s.snapshotDir.active ≠ some call.feed.encoded) }, ?_⟩
    simp only [step_advance hcall hclear, effect, succeeds, proceed, hphase, control, if_true]
    exact ⟨rfl, rfl, by simp [hphase, PublishPhase.rank], h, fun _ hretrying => by cases hretrying⟩

theorem advance_preparing (h : Resting s.remote s.clone)
    (hphase : call.phase = .preparing) : ∃ call', Continues s call (step s .advance) call' := by
  refine ⟨{ call with phase := .fetching }, ?_⟩
  simp only [step_advance hcall hclear, effect, succeeds, proceed, hphase, control, if_true]
  refine ⟨rfl, rfl, by simp [hphase, PublishPhase.rank], ?_, fun _ hretrying => by cases hretrying⟩
  cases hclone : s.clone with
  | none =>
    exact ⟨.fresh s.remote, rfl, Clone.fresh_settled _, s.remote, Clone.fresh_branchedAt _⟩
  | some r => exact ⟨r, rfl, h r (by rw [hclone]; rfl)⟩

theorem advance_fetching {r : Clone} (hclone : s.clone = some r)
    (hsettled : r.Settled) {base : List Commit} (hbranched : r.BranchedAt base s.remote)
    (hphase : call.phase = .fetching) : ∃ call', Continues s call (step s .advance) call' := by
  refine ⟨{ call with phase := .rebasing }, ?_⟩
  simp only [step_advance hcall hclear, effect, succeeds, proceed, hphase, control, if_true,
    onClone, hclone, Option.map_some]
  obtain ⟨hfetched, hbase⟩ := hbranched.fetched
  exact ⟨rfl, rfl, by simp [hphase, PublishPhase.rank],
    ⟨_, rfl, hsettled.fetched _, base, hfetched, hbase⟩,
    fun _ hretrying => by cases hretrying⟩

theorem advance_rebasing {r : Clone} (hclone : s.clone = some r)
    (hsettled : r.Settled) {base : List Commit} (hbranched : r.BranchedAt base s.remote)
    (hfetched : base <+: r.tracking) (hphase : call.phase = .rebasing) :
    ∃ call', Continues s call (step s .advance) call' := by
  obtain ⟨htree, hrebased⟩ := hbranched.rebased hfetched
  obtain ⟨hcan, hrebase⟩ := hsettled.rebaseOrAbort_eq htree
  refine ⟨{ call with phase := .writingRaw }, ?_⟩
  simp only [step_advance hcall hclear, effect, succeeds, proceed, hphase, control, onClone, hclone,
    Option.map_some, Option.any_some, hcan, if_true, hrebase]
  exact ⟨rfl, rfl, by simp [hphase, PublishPhase.rank], ⟨_, rfl, hsettled.of_head htree, hrebased⟩,
    fun _ hretrying => by cases hretrying⟩

theorem advance_writingRaw {r : Clone} (hclone : s.clone = some r)
    (hsettled : r.Settled) (hbranched : r.BranchedAt r.tracking s.remote)
    (hphase : call.phase = .writingRaw) : ∃ call', Continues s call (step s .advance) call' := by
  refine ⟨{ call with
    phase := .writingEncoded
    repoChanged := decide (r.worktree.activeRaw ≠ some call.feed.raw) }, ?_⟩
  simp only [step_advance hcall hclear, effect, succeeds, proceed, hphase, control, if_true,
    onClone, hclone, Option.map_some, Option.getD_some]
  exact ⟨rfl, rfl, by simp [hphase, PublishPhase.rank],
    ⟨_, rfl, hsettled.writeRaw call.feed, hbranched.own, hbranched.others, hbranched.tracking⟩,
    fun _ hretrying => by cases hretrying⟩

theorem advance_writingEncoded {r : Clone}
    (hclone : s.clone = some r) (hhalf : r.HalfWritten call.feed call.repoChanged)
    (hbranched : r.BranchedAt r.tracking s.remote) (hphase : call.phase = .writingEncoded) :
    ∃ call', Continues s call (step s .advance) call' := by
  cases hchanged : call.repoChanged || decide (r.worktree.active ≠ some call.feed.encoded) with
  | true =>
    refine ⟨{ call with phase := .adding, repoChanged := true }, ?_⟩
    simp only [step_advance hcall hclear, effect, succeeds, proceed, hphase, control, if_true,
      onClone, hclone, Option.map_some, Option.getD_some, hchanged]
    exact ⟨rfl, rfl, by simp [hphase, PublishPhase.rank],
      ⟨_, rfl, hhalf.writeActive hchanged, hbranched.own, hbranched.others, hbranched.tracking⟩,
      fun _ hretrying => by cases hretrying⟩
  | false =>
    obtain ⟨hpublished, hsame⟩ : r.Published call.feed ∧
        { r with worktree := { r.worktree with active := some call.feed.encoded } } = r :=
      hhalf.unchanged_published call.nonempty hchanged
    refine ⟨{ call with phase := .counting }, ?_⟩
    simp only [step_advance hcall hclear, effect, succeeds, proceed, hphase, control, if_true,
      onClone, hclone, Option.map_some, Option.getD_some, hchanged, hsame]
    exact ⟨rfl, rfl, by simp [hphase, PublishPhase.rank], ⟨r, rfl, hpublished, hbranched⟩,
      fun _ hretrying => by cases hretrying⟩

theorem advance_adding {r : Clone} (hclone : s.clone = some r)
    (hwritten : r.Written call.feed) (hbranched : r.BranchedAt r.tracking s.remote)
    (hphase : call.phase = .adding) : ∃ call', Continues s call (step s .advance) call' := by
  refine ⟨{ call with phase := .committing }, ?_⟩
  simp only [step_advance hcall hclear, effect, succeeds, proceed, hphase, control, if_true,
    onClone, hclone, Option.map_some]
  exact ⟨rfl, rfl, by simp [hphase, PublishPhase.rank],
    ⟨_, rfl, hwritten.add, hbranched.own, hbranched.others, hbranched.tracking⟩,
    fun _ hretrying => by cases hretrying⟩

theorem advance_committing {r : Clone} (hclone : s.clone = some r)
    (hstaged : r.Staged call.feed) (hbranched : r.BranchedAt r.tracking s.remote)
    (hphase : call.phase = .committing) : ∃ call', Continues s call (step s .advance) call' := by
  obtain ⟨hcan, hpublished⟩ := hstaged.commit
  refine ⟨{ call with phase := .counting, committed := true }, ?_⟩
  simp only [step_advance hcall hclear, effect, succeeds, proceed, hphase, control, onClone, hclone,
    Option.map_some, Option.any_some, hcan, if_true]
  have htracking : r.commit.tracking = r.tracking := by simp [Clone.commit, hcan]
  refine ⟨rfl, rfl, by simp [hphase, PublishPhase.rank], ⟨_, rfl, hpublished, ?_⟩,
    fun _ hretrying => by cases hretrying⟩
  rw [htracking]
  exact hbranched.commit

/-- Without a pending commit the remote branch has the snapshot already. -/
theorem advance_counting {r : Clone} (hclone : s.clone = some r)
    (hpublished : r.Published call.feed) (hbranched : r.BranchedAt r.tracking s.remote)
    (hphase : call.phase = .counting) :
    (∃ call', Continues s call (step s .advance) call') ∨ Succeeds call (step s .advance) := by
  cases hpending : (ahead r.tracking r.head).isEmpty with
  | false =>
    left
    refine ⟨{ call with phase := .pushing }, ?_⟩
    simp only [step_advance hcall hclear, effect, succeeds, proceed, hphase, control, if_true,
      hclone, Option.any_some, hpending, Bool.not_false]
    exact ⟨rfl, rfl, by simp [hphase, PublishPhase.rank], ⟨r, rfl, hpublished, hbranched⟩,
      fun _ hretrying => by cases hretrying⟩
  | true =>
    right
    have hstep : step s .advance = s.control (finished call false) := by
      simp [step_advance hcall hclear, effect, succeeds, proceed, hphase, hclone, hpending]
    rw [hstep]
    obtain ⟨own, hhead, -⟩ := hbranched.own
    obtain ⟨others, hremote, hothers⟩ := hbranched.others
    rw [hhead, ahead_self_append, List.isEmpty_iff] at hpending
    refine ⟨rfl, ?_, rfl, ?_⟩
    · show Resting s.remote s.clone
      rw [hclone]
      exact resting_of_published hpublished hbranched
    · show tree s.remote = call.feed.files
      rw [hremote, tree_append_others hothers, ← hpublished.committed, hhead, hpending,
        List.append_nil]

theorem advance_pushing {r : Clone} (hclone : s.clone = some r)
    (hpublished : r.Published call.feed) (hbranched : r.BranchedAt r.tracking s.remote)
    (hphase : call.phase = .pushing) :
    (∃ call', Continues s call (step s .advance) call') ∨ Succeeds call (step s .advance) := by
  cases hfast : s.remote.isPrefixOf r.head with
  | true => exact Or.inr (pushed hcall hclear hclone hpublished hfast (Or.inl hphase))
  | false =>
    left
    refine ⟨{ call with phase := .refetching }, ?_⟩
    have hstep : step s .advance = { s with call := some { call with phase := .refetching } } := by
      simp [step_advance hcall hclear, effect, succeeds, refuse, hphase, control, canPush, push,
        hclone, hfast]
    rw [hstep]
    exact ⟨rfl, rfl, by simp [hphase, PublishPhase.rank], ⟨r, hclone, hpublished, _, hbranched⟩,
      fun _ hretrying => by cases hretrying⟩

theorem advance_refetching {r : Clone} (hclone : s.clone = some r)
    (hpublished : r.Published call.feed) {base : List Commit}
    (hbranched : r.BranchedAt base s.remote) (hphase : call.phase = .refetching) :
    ∃ call', Continues s call (step s .advance) call' := by
  refine ⟨{ call with phase := .rerebasing }, ?_⟩
  simp only [step_advance hcall hclear, effect, succeeds, proceed, hphase, control, if_true,
    onClone, hclone, Option.map_some]
  obtain ⟨hfetched, hbase⟩ := hbranched.fetched
  refine ⟨rfl, rfl, by simp [hphase, PublishPhase.rank],
    ⟨_, rfl, ⟨hpublished.settled.fetched _, hpublished.committed⟩, base, hfetched, hbase⟩,
    ?_⟩
  intro _ _ r' hr'
  cases hr'
  rfl

theorem advance_rerebasing {r : Clone} (hclone : s.clone = some r)
    (hpublished : r.Published call.feed) {base : List Commit}
    (hbranched : r.BranchedAt base s.remote) (hfetched : base <+: r.tracking)
    (hphase : call.phase = .rerebasing) : ∃ call', Continues s call (step s .advance) call' := by
  obtain ⟨htree, hrebased⟩ := hbranched.rebased hfetched
  obtain ⟨hcan, hrebase⟩ := hpublished.settled.rebaseOrAbort_eq htree
  refine ⟨{ call with phase := .repushing }, ?_⟩
  simp only [step_advance hcall hclear, effect, succeeds, proceed, hphase, control, onClone, hclone,
    Option.map_some, Option.any_some, hcan, if_true, hrebase]
  refine ⟨rfl, rfl, by simp [hphase, PublishPhase.rank],
    ⟨_, rfl, ⟨hpublished.settled.of_head htree, htree.trans hpublished.committed⟩, hrebased⟩, ?_⟩
  intro hcurrent _ r' hr'
  cases hr'
  exact hcurrent (by rw [hphase]; rfl) r (by rw [hclone]; rfl)

theorem advance_repushing {r : Clone} (hclone : s.clone = some r)
    (hpublished : r.Published call.feed) (hbranched : r.BranchedAt r.tracking s.remote)
    (hphase : call.phase = .repushing) :
    Succeeds call (step s .advance) ∨ Rejected s call (step s .advance) := by
  cases hfast : s.remote.isPrefixOf r.head with
  | true => exact Or.inl (pushed hcall hclear hclone hpublished hfast (Or.inr hphase))
  | false =>
    right
    have hstep : step s .advance = { s with call := none, result := none } := by
      simp [step_advance hcall hclear, effect, succeeds, refuse, hphase, control, canPush, push,
        hclone, hfast]
    rw [hstep]
    refine ⟨rfl, ?_, ?_⟩
    · show Resting s.remote s.clone
      rw [hclone]
      exact resting_of_published hpublished hbranched
    · intro hcurrent
      exact overtaken hbranched hfast
        (hcurrent (by rw [hphase]; rfl) r (by rw [hclone]; rfl))

/-- What a step that does not fail by itself leads to. -/
theorem advance_spec (h : Prepared s.remote call s.clone) :
    (∃ call', Continues s call (step s .advance) call') ∨ Succeeds call (step s .advance) ∨
      Rejected s call (step s .advance) := by
  cases hphase : call.phase with
  | snapshotRaw =>
    simp only [Prepared, hphase] at h
    exact Or.inl (advance_snapshots hcall hclear h (Or.inl hphase))
  | snapshotEncoded =>
    simp only [Prepared, hphase] at h
    exact Or.inl (advance_snapshots hcall hclear h (Or.inr hphase))
  | preparing =>
    simp only [Prepared, hphase] at h
    exact Or.inl (advance_preparing hcall hclear h hphase)
  | fetching =>
    simp only [Prepared, hphase] at h
    obtain ⟨r, hclone, hsettled, base, hbranched⟩ := h
    exact Or.inl (advance_fetching hcall hclear hclone hsettled hbranched hphase)
  | rebasing =>
    simp only [Prepared, hphase] at h
    obtain ⟨r, hclone, hsettled, base, hbranched, hfetched⟩ := h
    exact Or.inl (advance_rebasing hcall hclear hclone hsettled hbranched hfetched hphase)
  | writingRaw =>
    simp only [Prepared, hphase] at h
    obtain ⟨r, hclone, hsettled, hbranched⟩ := h
    exact Or.inl (advance_writingRaw hcall hclear hclone hsettled hbranched hphase)
  | writingEncoded =>
    simp only [Prepared, hphase] at h
    obtain ⟨r, hclone, hhalf, hbranched⟩ := h
    exact Or.inl (advance_writingEncoded hcall hclear hclone hhalf hbranched hphase)
  | adding =>
    simp only [Prepared, hphase] at h
    obtain ⟨r, hclone, hwritten, hbranched⟩ := h
    exact Or.inl (advance_adding hcall hclear hclone hwritten hbranched hphase)
  | committing =>
    simp only [Prepared, hphase] at h
    obtain ⟨r, hclone, hstaged, hbranched⟩ := h
    exact Or.inl (advance_committing hcall hclear hclone hstaged hbranched hphase)
  | counting =>
    simp only [Prepared, hphase] at h
    obtain ⟨r, hclone, hpublished, hbranched⟩ := h
    rcases advance_counting hcall hclear hclone hpublished hbranched hphase with hnext | hend
    · exact Or.inl hnext
    · exact Or.inr (Or.inl hend)
  | pushing =>
    simp only [Prepared, hphase] at h
    obtain ⟨r, hclone, hpublished, hbranched⟩ := h
    rcases advance_pushing hcall hclear hclone hpublished hbranched hphase with hnext | hend
    · exact Or.inl hnext
    · exact Or.inr (Or.inl hend)
  | refetching =>
    simp only [Prepared, hphase] at h
    obtain ⟨r, hclone, hpublished, base, hbranched⟩ := h
    exact Or.inl (advance_refetching hcall hclear hclone hpublished hbranched hphase)
  | rerebasing =>
    simp only [Prepared, hphase] at h
    obtain ⟨r, hclone, hpublished, base, hbranched, hfetched⟩ := h
    exact Or.inl (advance_rerebasing hcall hclear hclone hpublished hbranched hfetched hphase)
  | repushing =>
    simp only [Prepared, hphase] at h
    obtain ⟨r, hclone, hpublished, hbranched⟩ := h
    exact Or.inr (advance_repushing hcall hclear hclone hpublished hbranched hphase)

end Advance

end Publisher

end ProxyFleet
