import ProxyFleet.PublisherRecovery

/-!
# The history of the public feed

The branch that carries the feed is shared with other writers, and a publication may
be cut off wherever it stands. A push only adds commits, a commit carries the two files
of one snapshot, and a rebase moves the commits of the publisher behind those of the
others without reordering either. So the branch stays an interleaving of two
sequences: what the other writers pushed, and some of the snapshots that publications
began with, in their order.
-/
namespace ProxyFleet

open ObservedRuns LinearHistories

/-- What the publications of a history set, the oldest first. -/
def publications (history : List Commit) : List PublishedFiles := history.filterMap Commit.files?

def Commit.id? : Commit → Option ℕ
  | .published _ => none
  | .other id => some id

/-- The commits of other writers in a history. -/
def foreignIds (history : List Commit) : List ℕ := history.filterMap Commit.id?

section Histories

variable {base own others : List Commit}

@[simp] theorem publications_append (h h' : List Commit) :
    publications (h ++ h') = publications h ++ publications h' := List.filterMap_append

@[simp] theorem foreignIds_append (h h' : List Commit) :
    foreignIds (h ++ h') = foreignIds h ++ foreignIds h' := List.filterMap_append

theorem publications_others (h : ∀ c ∈ others, c.IsOther) : publications others = [] :=
  filterMap_others h

theorem foreignIds_published (h : ∀ c ∈ own, c.IsPublished) : foreignIds own = [] := by
  rw [foreignIds, List.filterMap_eq_nil_iff]
  intro c hc
  obtain ⟨files, rfl⟩ := h c hc
  rfl

@[simp] theorem publications_map_other (ids : List ℕ) : publications (ids.map .other) = [] := by
  apply publications_others
  intro c hc
  obtain ⟨id, -, rfl⟩ := List.mem_map.mp hc
  exact ⟨id, rfl⟩

@[simp] theorem foreignIds_map_other (ids : List ℕ) : foreignIds (ids.map .other) = ids := by
  induction ids with
  | nil => rfl
  | cons id ids ih => simpa [foreignIds, Commit.id?] using ih

theorem tree_eq_publications (history : List Commit) :
    tree history = (publications history).getLast?.getD {} := rfl

end Histories

namespace Clone

variable {base remote : List Commit} {r : Clone}

/-- A rebase moves publications, and neither drops nor reorders them. -/
theorem BranchedAt.publications_rebased (h : r.BranchedAt base remote)
    (hfetched : base <+: r.tracking) : publications r.rebased = publications r.head := by
  obtain ⟨own, hhead, hown⟩ := h.own
  obtain ⟨others, hremote, hothers⟩ := h.others
  obtain ⟨fetched, hfetch⟩ := hfetched
  obtain ⟨unseen, hunseen⟩ := h.tracking
  have hfetchedOther : ∀ c ∈ fetched, c.IsOther := by
    intro c hc
    apply hothers
    rw [hremote, ← hfetch, List.append_assoc] at hunseen
    rw [← List.append_cancel_left hunseen]
    exact List.mem_append_left _ hc
  have hrebased : r.rebased = base ++ fetched ++ own := by
    rw [Clone.rebased, ← hfetch, hhead, rebase_append (disjoint_of_kinds hfetchedOther hown)]
  simp [hrebased, hhead, publications_others hfetchedOther]

/-- A branch that can be pushed has the commits of the other writers, once each. -/
theorem BranchedAt.foreignIds_head (h : r.BranchedAt base remote) (hfast : remote <+: r.head) :
    foreignIds r.head = foreignIds remote := by
  obtain ⟨own, hhead, hown⟩ := h.own
  obtain ⟨others, hremote, hothers⟩ := h.others
  have hfront : others <+: own := by
    rw [hremote, hhead] at hfast
    exact (List.prefix_append_right_inj base).mp hfast
  have hempty : others = [] := by
    apply List.eq_nil_iff_forall_not_mem.mpr
    intro c hc
    exact disjoint_of_kinds hothers hown hc (hfront.subset hc)
  simp [hhead, hremote, hempty, foreignIds_published hown]

end Clone

/-- What is noted of a run: the snapshots that publications began with, and the commits
that other writers pushed. -/
structure FeedNotes where
  begun : List PublishedFiles := []
  pushed : List ℕ := []

namespace Publisher

variable {first : List Commit} {offered earlier : List PublishedFiles} {ids : List ℕ}
variable {s : Publisher} {call : PublishCall}

def feedNote (notes : FeedNotes) (s : Publisher) : PublishEvent → FeedNotes
  | .begin snapshot =>
    if s.call.isNone && !snapshot.rawConfigs.isEmpty then
      { notes with begun := notes.begun ++ [(render snapshot.rawConfigs).files] }
    else notes
  | .others ids => { notes with pushed := notes.pushed ++ ids }
  | _ => notes

section Kept

/-- The remote branch grew from the first one by commits of others and, as the clone did,
by some of the snapshots on offer. -/
structure HistoryKept (first : List Commit) (offered : List PublishedFiles) (ids : List ℕ)
    (s : Publisher) : Prop where
  grown : first <+: s.remote
  foreign : foreignIds s.remote = foreignIds first ++ ids
  remote : (publications s.remote).Sublist (publications first ++ offered)
  heads : ∀ r ∈ s.clone, (publications r.head).Sublist (publications first ++ offered)
  branched : Branched s

theorem HistoryKept.mono (h : HistoryKept first offered ids s) {offered' : List PublishedFiles}
    (hsub : offered.Sublist offered') : HistoryKept first offered' ids s where
  grown := h.grown
  foreign := h.foreign
  remote := h.remote.trans (hsub.append_left _)
  heads := fun r hr => (h.heads r hr).trans (hsub.append_left _)
  branched := h.branched

/-- The history does not depend on the call and on the files next to the clone. -/
theorem HistoryKept.of_eq (h : HistoryKept first offered ids s) {s' : Publisher}
    (hremote : s'.remote = s.remote) (hclone : s'.clone = s.clone) :
    HistoryKept first offered ids s' where
  grown := by rw [hremote]; exact h.grown
  foreign := by rw [hremote]; exact h.foreign
  remote := by rw [hremote]; exact h.remote
  heads := by rw [hclone]; exact h.heads
  branched := by
    unfold Branched
    rw [hclone, hremote]
    exact h.branched

/-- A change of the files of the clone alone. -/
theorem HistoryKept.onClone (h : HistoryKept first offered ids s) {f : Clone → Clone}
    (hf : ∀ r, (f r).head = r.head ∧ (f r).tracking = r.tracking) :
    HistoryKept first offered ids (s.onClone f) where
  grown := h.grown
  foreign := h.foreign
  remote := h.remote
  heads := by
    intro r' hr'
    obtain ⟨r, hr, rfl⟩ := Option.map_eq_some_iff.mp hr'
    rw [(hf r).1]
    exact h.heads r hr
  branched := h.branched.onClone hf

theorem HistoryKept.fetch (h : HistoryKept first offered ids s) :
    HistoryKept first offered ids (s.onClone fun r => { r with tracking := s.remote }) where
  grown := h.grown
  foreign := h.foreign
  remote := h.remote
  heads := by
    intro r' hr'
    obtain ⟨r, hr, rfl⟩ := Option.map_eq_some_iff.mp hr'
    exact h.heads r hr
  branched := by
    apply branched_onClone
    intro r hclone
    obtain ⟨base, hbranched⟩ := h.branched r hclone
    exact ⟨base, hbranched.fetched.1⟩

/-- The clone has fetched all that it shares with the remote branch. -/
def Fetched (s : Publisher) : Prop :=
  ∀ r ∈ s.clone, ∃ base, r.BranchedAt base s.remote ∧ base <+: r.tracking

theorem HistoryKept.rebase (h : HistoryKept first offered ids s) (hfetched : Fetched s) :
    HistoryKept first offered ids (s.onClone Clone.rebaseOrAbort) where
  grown := h.grown
  foreign := h.foreign
  remote := h.remote
  heads := by
    intro r' hr'
    obtain ⟨r, hr, rfl⟩ := Option.map_eq_some_iff.mp hr'
    obtain ⟨base, hbranched, hbase⟩ := hfetched r hr
    unfold Clone.rebaseOrAbort
    split
    · show (publications r.rebased).Sublist _
      rw [hbranched.publications_rebased hbase]
      exact h.heads r hr
    · exact h.heads r hr
  branched := by
    apply branched_onClone
    intro r hclone
    obtain ⟨base, hbranched, hbase⟩ := hfetched r hclone
    exact branched_rebase hbranched hbase

theorem HistoryKept.prepare (h : HistoryKept first offered ids s) :
    HistoryKept first offered ids { s with clone := some (s.clone.getD (.fresh s.remote)) } where
  grown := h.grown
  foreign := h.foreign
  remote := h.remote
  heads := by
    intro r hr
    cases hclone : s.clone with
    | none =>
      rw [hclone] at hr
      cases hr
      exact h.remote
    | some r' =>
      rw [hclone] at hr
      cases hr
      exact h.heads r' hclone
  branched := by
    intro r hr
    cases hclone : s.clone with
    | none =>
      rw [hclone] at hr
      cases hr
      exact ⟨s.remote, Clone.fresh_branchedAt _⟩
    | some r' =>
      rw [hclone] at hr
      cases hr
      exact h.branched r' hclone

/-- A commit of one more snapshot. -/
theorem HistoryKept.commit (h : HistoryKept first offered ids s) {files : PublishedFiles}
    (hstaged : ∀ r ∈ s.clone, r.index = files) :
    HistoryKept first (offered ++ [files]) ids (s.onClone Clone.commit) where
  grown := h.grown
  foreign := h.foreign
  remote := h.remote.trans ((List.sublist_append_left _ _).append_left _)
  heads := by
    intro r' hr'
    obtain ⟨r, hr, rfl⟩ := Option.map_eq_some_iff.mp hr'
    rw [← List.append_assoc]
    unfold Clone.commit
    split
    · show (publications (r.head ++ [.published r.index])).Sublist _
      rw [publications_append, hstaged r hr]
      exact (h.heads r hr).append (List.Sublist.refl _)
    · exact (h.heads r hr).trans (List.sublist_append_left _ _)
  branched := by
    apply branched_onClone
    intro r hclone
    obtain ⟨base, hbranched⟩ := h.branched r hclone
    exact ⟨base, hbranched.commit⟩

/-- The remote takes only pushes that add commits. -/
theorem push_grows (s : Publisher) : s.remote <+: s.push.remote := by
  unfold push
  split
  · split
    · rename_i hfast
      exact List.isPrefixOf_iff_prefix.mp hfast
    · exact List.prefix_refl _
  · exact List.prefix_refl _

/-- The remote branch after a push, noted by the clone or not. -/
theorem HistoryKept.remote_push (h : HistoryKept first offered ids s) :
    foreignIds s.push.remote = foreignIds s.remote ∧
      (publications s.push.remote).Sublist (publications first ++ offered) := by
  unfold push
  split
  · rename_i r hclone
    split
    · rename_i hfast
      obtain ⟨base, hbranched⟩ := h.branched r hclone
      exact ⟨hbranched.foreignIds_head (List.isPrefixOf_iff_prefix.mp hfast), h.heads r hclone⟩
    · exact ⟨rfl, h.remote⟩
  · exact ⟨rfl, h.remote⟩

theorem push_heads {r' : Clone} (hr' : r' ∈ s.push.clone) : ∃ r ∈ s.clone, r'.head = r.head := by
  unfold push at hr'
  split at hr'
  · rename_i r hclone
    split at hr'
    · cases hr'
      exact ⟨r, hclone, rfl⟩
    · exact ⟨r', hr', rfl⟩
  · exact ⟨r', hr', rfl⟩

theorem HistoryKept.push (h : HistoryKept first offered ids s) :
    HistoryKept first offered ids s.push where
  grown := h.grown.trans (push_grows s)
  foreign := h.remote_push.1.trans h.foreign
  remote := h.remote_push.2
  heads := by
    intro r' hr'
    obtain ⟨r, hr, hhead⟩ := push_heads hr'
    rw [hhead]
    exact h.heads r hr
  branched := branched_push h.branched

theorem HistoryKept.push_unnoted (h : HistoryKept first offered ids s) :
    HistoryKept first offered ids { s.push with clone := s.clone } where
  grown := h.grown.trans (push_grows s)
  foreign := h.remote_push.1.trans h.foreign
  remote := h.remote_push.2
  heads := h.heads
  branched := branched_push_unnoted h.branched

/-- Other writers push. -/
theorem HistoryKept.others (h : HistoryKept first offered ids s) (pushed : List ℕ) :
    HistoryKept first offered (ids ++ pushed)
      { s with remote := s.remote ++ pushed.map .other } where
  grown := h.grown.trans (List.prefix_append _ _)
  foreign := by simp [h.foreign]
  remote := by simpa using h.remote
  heads := h.heads
  branched := by
    intro r hr
    obtain ⟨base, hbranched⟩ := h.branched r hr
    exact ⟨base, hbranched.grow pushed⟩

end Kept

section Steps

/-- What the call has to offer: its snapshot counts from its commit on. -/
def offers (earlier : List PublishedFiles) (call : PublishCall) : List PublishedFiles :=
  if PublishPhase.committing.rank ≤ call.phase.rank then earlier
  else earlier ++ [call.feed.files]

theorem offers_sublist (earlier : List PublishedFiles) (call : PublishCall) :
    (offers earlier call).Sublist (earlier ++ [call.feed.files]) := by
  unfold offers
  split
  · exact List.sublist_append_left _ _
  · exact List.Sublist.refl _

/-- What the earlier steps of the call have done for the one in progress. -/
def Carries (s : Publisher) (call : PublishCall) : Prop :=
  match call.phase with
  | .rebasing | .rerebasing => Fetched s
  | .writingEncoded => ∀ r ∈ s.clone, r.worktree.activeRaw = some call.feed.raw
  | .adding => ∀ r ∈ s.clone, r.worktree = call.feed.files
  | .committing => ∀ r ∈ s.clone, r.index = call.feed.files
  | _ => True

/-- Every step but the commit keeps what is on offer. -/
theorem effect_kept (h : HistoryKept first offered ids s) (hcarries : Carries s call)
    (hcommit : call.phase ≠ .committing) : HistoryKept first offered ids (s.effect call) := by
  cases hphase : call.phase <;> simp only [effect, hphase] <;>
    simp only [Carries, hphase] at hcarries
  case committing => exact absurd hphase hcommit
  case snapshotRaw | snapshotEncoded => exact h.of_eq rfl rfl
  case counting => exact h
  case preparing => exact h.prepare
  case fetching | refetching => exact h.fetch
  case rebasing | rerebasing => exact h.rebase hcarries
  case writingRaw | writingEncoded | adding => exact h.onClone fun r => ⟨rfl, rfl⟩
  case pushing | repushing => exact h.push

theorem effect_committing (h : HistoryKept first offered ids s) (hcarries : Carries s call)
    (hphase : call.phase = .committing) :
    HistoryKept first (offered ++ [call.feed.files]) ids (s.effect call) := by
  simp only [Carries, hphase] at hcarries
  simp only [effect, hphase]
  exact h.commit hcarries

/-- Whatever becomes of the step, the snapshot of the call is all that it adds. -/
theorem effect_offered (h : HistoryKept first (offers earlier call) ids s)
    (hcarries : Carries s call) :
    HistoryKept first (earlier ++ [call.feed.files]) ids (s.effect call) := by
  by_cases hphase : call.phase = .committing
  · have hoffers : offers earlier call = earlier := by simp [offers, hphase]
    rw [hoffers] at h
    exact effect_committing h hcarries hphase
  · exact (effect_kept h hcarries hphase).mono (offers_sublist earlier call)

theorem leave_offered (h : HistoryKept first (offers earlier call) ids s)
    (hcarries : Carries s call) (outcome : Outcome) :
    HistoryKept first (earlier ++ [call.feed.files]) ids (s.leave call outcome) := by
  have hall := h.mono (offers_sublist earlier call)
  unfold leave
  split
  · exact hall
  · cases outcome with
    | untouched => exact hall
    | completed => exact effect_offered h hcarries
    | interrupted =>
      cases hphase : call.phase <;> simp only
      case rebasing | rerebasing => exact hall.onClone fun r => ⟨rfl, rfl⟩
      case pushing | repushing => exact hall.push_unnoted
      all_goals exact hall
    | jammed => exact hall.of_eq rfl rfl

theorem abort_offered (h : HistoryKept first offered ids s) (call : PublishCall) :
    HistoryKept first offered ids (s.abort call) := by
  unfold abort
  split
  · exact h.onClone fun r => ⟨rfl, rfl⟩
  · exact h.onClone fun r => ⟨rfl, rfl⟩
  · exact h

/-- The step that follows belongs to the same snapshot and comes later. -/
theorem proceed_later {call' : PublishCall} (h : s.proceed call = .next call') :
    call'.configs = call.configs ∧ call'.phase.rank < call.phase.rank := by
  cases hphase : call.phase <;> simp only [proceed, hphase, finished] at h
  case writingEncoded | counting =>
    split at h <;> cases h
    all_goals exact ⟨rfl, by simp [PublishPhase.rank]⟩
  case pushing | repushing => cases h
  all_goals
    cases h
    exact ⟨rfl, by simp [PublishPhase.rank]⟩

theorem refuse_later {call' : PublishCall} (h : refuse call = .next call') :
    call.phase = .pushing ∧ call' = { call with phase := .refetching } := by
  unfold refuse at h
  split at h
  · rename_i hphase
    cases h
    exact ⟨hphase, rfl⟩
  · cases h

theorem fetched_onClone (h : Branched s) :
    Fetched (s.onClone fun r => { r with tracking := s.remote }) := by
  intro r' hr'
  obtain ⟨r, hr, rfl⟩ := Option.map_eq_some_iff.mp hr'
  obtain ⟨base, hbranched⟩ := h r hr
  exact ⟨base, hbranched.fetched⟩

/-- Each step prepares the one that follows it. -/
theorem carries_proceed (h : Branched s) (hcarries : Carries s call) {call' : PublishCall}
    (hnext : s.proceed call = .next call') : Carries (s.effect call) call' := by
  cases hphase : call.phase <;> simp only [proceed, hphase, finished] at hnext <;>
    simp only [Carries, hphase] at hcarries <;> simp only [effect, hphase]
  case fetching | refetching =>
    cases hnext
    exact fetched_onClone h
  case writingRaw =>
    cases hnext
    intro r' hr'
    obtain ⟨r, hr, rfl⟩ := Option.map_eq_some_iff.mp hr'
    rfl
  case writingEncoded =>
    split at hnext
    · cases hnext
      intro r' hr'
      obtain ⟨r, hr, rfl⟩ := Option.map_eq_some_iff.mp hr'
      exact PublishedFiles.ext (hcarries r hr) rfl
    · cases hnext
      trivial
  case adding =>
    cases hnext
    intro r' hr'
    obtain ⟨r, hr, rfl⟩ := Option.map_eq_some_iff.mp hr'
    exact hcarries r hr
  case counting =>
    split at hnext
    · cases hnext
      trivial
    · cases hnext
  case pushing | repushing => cases hnext
  all_goals
    cases hnext
    trivial

/-- A call in progress offers its snapshot behind those of the earlier ones. -/
def FeedKept (first : List Commit) (s : Publisher) (notes : FeedNotes) : Prop :=
  match s.call with
  | none => HistoryKept first notes.begun notes.pushed s
  | some call => ∃ earlier, notes.begun = earlier ++ [call.feed.files] ∧
    HistoryKept first (offers earlier call) notes.pushed s ∧ Carries s call

theorem feedKept_none {notes : FeedNotes} (hcall : s.call = none) :
    FeedKept first s notes ↔ HistoryKept first notes.begun notes.pushed s := by
  simp [FeedKept, hcall]

theorem feedKept_some {notes : FeedNotes} (hcall : s.call = some call) :
    FeedKept first s notes ↔ ∃ earlier, notes.begun = earlier ++ [call.feed.files] ∧
      HistoryKept first (offers earlier call) notes.pushed s ∧ Carries s call := by
  simp [FeedKept, hcall]

/-- A call that ends leaves its snapshot on offer. -/
theorem HistoryKept.finish {notes : FeedNotes}
    (hbegun : notes.begun = earlier ++ [call.feed.files])
    (h : HistoryKept first (earlier ++ [call.feed.files]) notes.pushed s)
    (result : Option PublishResult) : FeedKept first (s.control (.finish result)) notes := by
  show HistoryKept _ _ _ _
  rw [hbegun]
  exact h.of_eq rfl rfl

/-- A call that goes on has added nothing before its commit. -/
theorem feedKept_next {notes : FeedNotes} (hbegun : notes.begun = earlier ++ [call.feed.files])
    (hkept : HistoryKept first (offers earlier call) notes.pushed s) (hcarries : Carries s call)
    {call' : PublishCall} (hnext : s.proceed call = .next call') :
    FeedKept first ((s.effect call).control (.next call')) notes := by
  obtain ⟨hconfigs, hrank⟩ := proceed_later hnext
  have hfeed : call'.feed = call.feed := congrArg render hconfigs
  have hcarries' := carries_proceed hkept.branched hcarries hnext
  refine (feedKept_some rfl).mpr ⟨earlier, by rw [hfeed, hbegun], ?_, hcarries'⟩
  by_cases hbefore : PublishPhase.committing.rank ≤ call'.phase.rank
  · have hlater : PublishPhase.committing.rank < call.phase.rank := hbefore.trans_lt hrank
    have hcommit : call.phase ≠ .committing := by
      intro hphase
      rw [hphase] at hlater
      exact lt_irrefl _ hlater
    have hoffers : offers earlier call' = offers earlier call := by
      simp only [offers, if_pos hbefore, if_pos hlater.le]
    rw [hoffers]
    exact (effect_kept hkept hcarries hcommit).of_eq rfl rfl
  · have hoffers : offers earlier call' = earlier ++ [call.feed.files] := by
      simp only [offers, if_neg hbefore, hfeed]
    rw [hoffers]
    exact (effect_offered hkept hcarries).of_eq rfl rfl

/-- A step that fails ends the call, or is the first push. -/
theorem feedKept_refuse {notes : FeedNotes}
    (hbegun : notes.begun = earlier ++ [call.feed.files])
    (hoffered : HistoryKept first (earlier ++ [call.feed.files]) notes.pushed s) :
    FeedKept first (s.control (refuse call)) notes := by
  cases hcontrol : refuse call with
  | finish result => exact hoffered.finish hbegun result
  | next call' =>
    obtain ⟨-, rfl⟩ := refuse_later hcontrol
    have hnext : (s.control (.next { call with phase := .refetching })).call =
        some { call with phase := .refetching } := rfl
    exact (feedKept_some hnext).mpr ⟨earlier, hbegun, hoffered.of_eq rfl rfl, trivial⟩

theorem feedKept_begin {notes : FeedNotes} (h : FeedKept first s notes)
    (snapshot : PublicationSnapshot) :
    FeedKept first (step s (.begin snapshot)) (feedNote notes s (.begin snapshot)) := by
  cases hcall : s.call with
  | some call => simpa [step, feedNote, hcall] using h
  | none =>
    have hkept := (feedKept_none hcall).mp h
    by_cases hempty : snapshot.rawConfigs = []
    · simp only [step, feedNote, hcall, hempty, dite_true, List.isEmpty_nil]
      exact (feedKept_none rfl).mpr (hkept.of_eq rfl rfl)
    · have hnote : feedNote notes s (.begin snapshot) =
          { notes with begun := notes.begun ++ [(render snapshot.rawConfigs).files] } := by
        simp [feedNote, hcall, hempty]
      have hbegun : step s (.begin snapshot) =
          { s with
            call := some ⟨snapshot.rawConfigs, hempty, .snapshotRaw, false, false, false⟩
            result := none } := by
        simp [step, hcall, hempty]
      have hfirst : (step s (.begin snapshot)).call =
          some ⟨snapshot.rawConfigs, hempty, .snapshotRaw, false, false, false⟩ := by
        rw [hbegun]
      rw [hnote]
      refine (feedKept_some hfirst).mpr ⟨notes.begun, rfl, ?_, trivial⟩
      exact hkept.of_eq (by rw [hbegun]) (by rw [hbegun])

theorem feedKept_advance {notes : FeedNotes} (h : FeedKept first s notes) :
    FeedKept first (step s .advance) notes := by
  cases hcall : s.call with
  | none => simpa [step, hcall] using h
  | some call =>
    obtain ⟨earlier, hbegun, hkept, hcarries⟩ := (feedKept_some hcall).mp h
    have hoffered := effect_offered hkept hcarries
    simp only [step, hcall]
    split
    · exact feedKept_refuse hbegun (hkept.mono (offers_sublist earlier call))
    · split
      · cases hcontrol : s.proceed call with
        | finish result => exact hoffered.finish hbegun result
        | next call' => exact feedKept_next hbegun hkept hcarries hcontrol
      · exact feedKept_refuse hbegun hoffered

theorem feedKept_fail {notes : FeedNotes} (h : FeedKept first s notes) (outcome : Outcome) :
    FeedKept first (step s (.fail outcome)) notes := by
  cases hcall : s.call with
  | none => simpa [step, hcall] using h
  | some call =>
    obtain ⟨earlier, hbegun, hkept, hcarries⟩ := (feedKept_some hcall).mp h
    simp only [step, hcall]
    exact feedKept_refuse hbegun (abort_offered (leave_offered hkept hcarries outcome) call)

theorem feedKept_crash {notes : FeedNotes} (h : FeedKept first s notes) (outcome : Outcome) :
    FeedKept first (step s (.crash outcome)) notes := by
  cases hcall : s.call with
  | none => simpa [step, hcall] using h
  | some call =>
    obtain ⟨earlier, hbegun, hkept, hcarries⟩ := (feedKept_some hcall).mp h
    simp only [step, hcall]
    exact (leave_offered hkept hcarries outcome).finish hbegun none

theorem feedKept_others {notes : FeedNotes} (h : FeedKept first s notes) (pushed : List ℕ) :
    FeedKept first (step s (.others pushed)) (feedNote notes s (.others pushed)) := by
  have hsame : (step s (.others pushed)).call = s.call := rfl
  cases hcall : s.call with
  | none =>
    have hkept := (feedKept_none hcall).mp h
    exact (feedKept_none (hsame.trans hcall)).mpr (hkept.others pushed)
  | some call =>
    obtain ⟨earlier, hbegun, hkept, hcarries⟩ := (feedKept_some hcall).mp h
    refine (feedKept_some (hsame.trans hcall)).mpr ⟨earlier, hbegun, hkept.others pushed, ?_⟩
    have hfetched : Fetched s → Fetched (step s (.others pushed)) := by
      intro hfetched r hr
      obtain ⟨base, hbranched, hbase⟩ := hfetched r hr
      exact ⟨base, hbranched.grow pushed, hbase⟩
    revert hcarries
    cases hphase : call.phase <;> simp only [Carries, hphase]
    case rebasing | rerebasing => exact hfetched
    all_goals exact id

theorem feedKept_step (s : Publisher) (notes : FeedNotes) (event : PublishEvent)
    (h : FeedKept first s notes) : FeedKept first (step s event) (feedNote notes s event) := by
  cases event with
  | begin snapshot => exact feedKept_begin h snapshot
  | advance => exact feedKept_advance h
  | fail outcome => exact feedKept_fail h outcome
  | crash outcome => exact feedKept_crash h outcome
  | others pushed => exact feedKept_others h pushed

theorem feedKept_initial (remote : List Commit) (snapshotDir : PublishedFiles) :
    FeedKept remote (initial remote snapshotDir) {} where
  grown := List.prefix_refl _
  foreign := by simp [initial]
  remote := by simp [initial]
  heads := by
    intro r hr
    cases hr
  branched := by
    intro r hr
    cases hr

theorem FeedKept.kept {notes : FeedNotes} (h : FeedKept first s notes) :
    HistoryKept first notes.begun notes.pushed s := by
  cases hcall : s.call with
  | none => exact (feedKept_none hcall).mp h
  | some call =>
    obtain ⟨earlier, hbegun, hkept, -⟩ := (feedKept_some hcall).mp h
    rw [hbegun]
    exact hkept.mono (offers_sublist earlier call)

end Steps

section Runs

/-- The snapshots that publications began with and the commits of the other writers. -/
def feedNotes (s : Publisher) (events : List PublishEvent) : FeedNotes :=
  notes step feedNote {} s events

theorem feedKept_run (remote : List Commit) (snapshotDir : PublishedFiles)
    (events : List PublishEvent) :
    FeedKept remote (run step (initial remote snapshotDir) events)
      (feedNotes (initial remote snapshotDir) events) :=
  notes_invariant (A := fun _ _ => True) (fun s g event _ h => feedKept_step s g event h)
    (feedKept_initial remote snapshotDir) (admitted_of_forall (fun _ _ _ => trivial) _)

@[simp] theorem control_remote (s : Publisher) (c : Control) : (s.control c).remote = s.remote := by
  cases c <;> rfl

@[simp] theorem abort_remote (s : Publisher) (call : PublishCall) :
    (s.abort call).remote = s.remote := by
  unfold abort
  split <;> rfl

theorem effect_grows (s : Publisher) (call : PublishCall) :
    s.remote <+: (s.effect call).remote := by
  cases hphase : call.phase <;> simp only [effect, hphase]
  case pushing | repushing => exact push_grows s
  all_goals exact List.prefix_refl _

theorem leave_grows (s : Publisher) (call : PublishCall) (outcome : Outcome) :
    s.remote <+: (s.leave call outcome).remote := by
  unfold leave
  split
  · exact List.prefix_refl _
  · cases outcome with
    | untouched | jammed => exact List.prefix_refl _
    | completed => exact effect_grows s call
    | interrupted =>
      cases hphase : call.phase <;> simp only
      case pushing | repushing => exact push_grows s
      all_goals exact List.prefix_refl _

/-- No step rewrites the branch. -/
theorem step_grows (s : Publisher) (event : PublishEvent) :
    s.remote <+: (step s event).remote := by
  cases hcall : s.call with
  | none =>
    cases event with
    | others pushed => exact List.prefix_append _ _
    | begin snapshot =>
      simp only [step, hcall]
      split <;> exact List.prefix_refl _
    | advance | fail | crash =>
      simp only [step, hcall]
      exact List.prefix_refl _
  | some call =>
    cases event with
    | others pushed => exact List.prefix_append _ _
    | begin snapshot =>
      simp only [step, hcall]
      exact List.prefix_refl _
    | advance =>
      simp only [step, hcall]
      split
      · rw [control_remote]
      · rw [control_remote]
        exact effect_grows s call
    | fail outcome =>
      simp only [step, hcall, control_remote, abort_remote]
      exact leave_grows s call outcome
    | crash outcome =>
      simp only [step, hcall]
      exact leave_grows s call outcome

theorem run_grows (s : Publisher) (events : List PublishEvent) :
    s.remote <+: (run step s events).remote :=
  run_preserves (I := fun s' => s.remote <+: s'.remote)
    (fun s' event h => h.trans (step_grows s' event)) (List.prefix_refl _) events

/-- What a publication began with is a snapshot with something in it, as a whole. -/
theorem begun_whole (s : Publisher) (events : List PublishEvent) :
    ∀ files ∈ (feedNotes s events).begun, ∃ snapshot, .begin snapshot ∈ events ∧
      snapshot.rawConfigs ≠ [] ∧ files = (render snapshot.rawConfigs).files := by
  induction events using List.reverseRecOn with
  | nil =>
    intro files hfiles
    cases hfiles
  | append_singleton events event ih =>
    have hold : ∀ files ∈ (feedNotes s events).begun, ∃ snapshot,
        .begin snapshot ∈ events ++ [event] ∧ snapshot.rawConfigs ≠ [] ∧
          files = (render snapshot.rawConfigs).files := by
      intro files hfiles
      obtain ⟨snapshot, hmem, hsnapshot⟩ := ih files hfiles
      exact ⟨snapshot, List.mem_append_left _ hmem, hsnapshot⟩
    intro files hfiles
    rw [feedNotes, notes_concat] at hfiles
    cases event with
    | begin snapshot =>
      simp only [feedNote] at hfiles
      split at hfiles
      · rename_i hfirst
        rcases List.mem_append.mp hfiles with hfiles | hfiles
        · exact hold files hfiles
        · refine ⟨snapshot, by simp, ?_, List.mem_singleton.mp hfiles⟩
          intro hempty
          simp [hempty] at hfirst
      · exact hold files hfiles
    | others pushed => exact hold files hfiles
    | advance => exact hold files hfiles
    | fail outcome => exact hold files hfiles
    | crash outcome => exact hold files hfiles

/-- The files on the branch are those it began with, or the last of its snapshots. -/
theorem tree_append (first added : List Commit) :
    tree (first ++ added) = tree first ∨ tree (first ++ added) ∈ publications added := by
  rw [tree_eq_publications, tree_eq_publications, publications_append, List.getLast?_append]
  cases hlast : (publications added).getLast? with
  | none => exact .inl rfl
  | some files => exact .inr (List.mem_of_getLast? hlast)

/-- The branch is never rewritten. What a run adds to it are the commits of the other
writers, once each and in order, and some of the snapshots that publications began with,
in order. So the feed is at every moment the first one or a whole snapshot. -/
theorem feed_history (remote : List Commit) (snapshotDir : PublishedFiles)
    (events later : List PublishEvent) :
    (run step (initial remote snapshotDir) events).remote <+:
        (run step (initial remote snapshotDir) (events ++ later)).remote ∧
      (∃ added, (run step (initial remote snapshotDir) events).remote = remote ++ added ∧
        foreignIds added = (feedNotes (initial remote snapshotDir) events).pushed ∧
        (publications added).Sublist (feedNotes (initial remote snapshotDir) events).begun) ∧
      (tree (run step (initial remote snapshotDir) events).remote = tree remote ∨
        ∃ snapshot, .begin snapshot ∈ events ∧ snapshot.rawConfigs ≠ [] ∧
          tree (run step (initial remote snapshotDir) events).remote =
            (render snapshot.rawConfigs).files) := by
  have hkept := (feedKept_run remote snapshotDir events).kept
  obtain ⟨added, hadded⟩ := hkept.grown
  have hpublished : (publications added).Sublist
      (feedNotes (initial remote snapshotDir) events).begun := by
    have hremote := hkept.remote
    rw [← hadded, publications_append] at hremote
    exact (List.append_sublist_append_left _).mp hremote
  have hforeign : foreignIds added = (feedNotes (initial remote snapshotDir) events).pushed := by
    have hremote := hkept.foreign
    rw [← hadded, foreignIds_append] at hremote
    exact List.append_cancel_left hremote
  refine ⟨?_, ⟨added, hadded.symm, hforeign, hpublished⟩, ?_⟩
  · rw [run_append]
    exact run_grows _ later
  · rw [← hadded]
    rcases tree_append remote added with hsame | hnew
    · exact .inl hsame
    · obtain ⟨snapshot, hmem, hnonempty, hfiles⟩ := begun_whole _ _ _ (hpublished.subset hnew)
      exact .inr ⟨snapshot, hmem, hnonempty, hfiles⟩

end Runs

end Publisher

end ProxyFleet
