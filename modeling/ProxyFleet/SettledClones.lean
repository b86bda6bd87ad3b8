import ProxyFleet.Publisher

/-!
# Settled clones

A rebase refuses uncommitted changes, so the next publication gets through only if
the last one left the clone settled: no rebase in progress, nothing staged or
modified, and the two files committed if they are those of a snapshot. Between two
settled states a publication writes, stages and commits, and its own commits and
those of the other writers grow from a common base.
-/
namespace ProxyFleet

open LinearHistories

section Trees

variable {base own others : List Commit}

/-- The histories of the publisher and of the other writers. -/
def Commit.IsPublished (c : Commit) : Prop := ∃ files, c = .published files

def Commit.IsOther (c : Commit) : Prop := ∃ id, c = .other id

theorem disjoint_of_kinds (hothers : ∀ c ∈ others, c.IsOther) (hown : ∀ c ∈ own, c.IsPublished) :
    others.Disjoint own := by
  intro c hc hc'
  obtain ⟨id, rfl⟩ := hothers c hc
  obtain ⟨files, hfiles⟩ := hown _ hc'
  cases hfiles

theorem filterMap_others (h : ∀ c ∈ others, c.IsOther) :
    others.filterMap Commit.files? = [] := by
  rw [List.filterMap_eq_nil_iff]
  intro c hc
  obtain ⟨id, rfl⟩ := h c hc
  rfl

theorem tree_append_others (h : ∀ c ∈ others, c.IsOther) : tree (base ++ others) = tree base := by
  simp [tree, List.filterMap_append, filterMap_others h]

/-- Commits of other writers before one's own do not show in the published files. -/
theorem tree_insert_others (h : ∀ c ∈ others, c.IsOther) :
    tree (base ++ others ++ own) = tree (base ++ own) := by
  simp [tree, List.filterMap_append, filterMap_others h]

@[simp] theorem tree_concat_published (history : List Commit) (files : PublishedFiles) :
    tree (history ++ [.published files]) = files := by
  simp [tree, Commit.files?]

end Trees

namespace Clone

/-- Nothing in the clone stops a rebase, and no snapshot passes for published that is not
committed. -/
structure Settled (r : Clone) : Prop where
  idle : r.rebasing = false
  staged : r.index = tree r.head
  cleanRaw : r.index.activeRaw ≠ none → r.worktree.activeRaw = r.index.activeRaw
  cleanActive : r.index.active ≠ none → r.worktree.active = r.index.active
  published : ∀ configs ≠ [], r.worktree = (render configs).files →
    tree r.head = (render configs).files

/-- The clone and the remote branch grew from a common base, the one by publications and
the other by commits of other writers. -/
structure BranchedAt (base remote : List Commit) (r : Clone) : Prop where
  own : ∃ own, r.head = base ++ own ∧ ∀ c ∈ own, c.IsPublished
  others : ∃ others, remote = base ++ others ∧ ∀ c ∈ others, c.IsOther
  tracking : r.tracking <+: remote

theorem modified_eq_false {index worktree : Option (List UInt8)} :
    modified index worktree = false ↔ (index ≠ none → worktree = index) := by
  cases index <;> simp [modified]

theorem Settled.uncommitted_eq_false {r : Clone} (h : r.Settled) : r.uncommitted = false := by
  simp [uncommitted, h.staged.symm, modified_eq_false.mpr h.cleanRaw,
    modified_eq_false.mpr h.cleanActive]

/-- A checkout of what the index has changes no file. -/
theorem checkout_index {index worktree : Option (List UInt8)}
    (h : index ≠ none → worktree = index) : checkout index index worktree = worktree := by
  cases index with
  | none => rfl
  | some content => exact (h (by simp)).symm

/-- A settled clone is rebased without a change of the published files. -/
theorem Settled.rebaseOrAbort_eq {r : Clone} (h : r.Settled)
    (htree : tree r.rebased = tree r.head) :
    r.canRebase = true ∧ r.rebaseOrAbort = { r with head := r.rebased } := by
  have hindex : tree r.rebased = r.index := by rw [htree, h.staged]
  have hoverwrites : ∀ index worktree : Option (List UInt8),
      overwrites index index worktree = false := by
    intro index worktree
    cases index <;> simp [overwrites]
  have hcan : r.canRebase = true := by
    simp [canRebase, h.idle, h.uncommitted_eq_false, hindex, hoverwrites]
  refine ⟨hcan, ?_⟩
  simp only [rebaseOrAbort, hcan, if_true, hindex, checkout_index h.cleanRaw,
    checkout_index h.cleanActive]

theorem Settled.of_head {r : Clone} (h : r.Settled) {head : List Commit}
    (htree : tree head = tree r.head) : ({ r with head := head } : Clone).Settled where
  idle := h.idle
  staged := by rw [htree]; exact h.staged
  cleanRaw := h.cleanRaw
  cleanActive := h.cleanActive
  published := by
    intro configs hconfigs hfiles
    rw [htree]
    exact h.published configs hconfigs hfiles

theorem fresh_settled (remote : List Commit) : (fresh remote).Settled where
  idle := rfl
  staged := rfl
  cleanRaw := fun _ => rfl
  cleanActive := fun _ => rfl
  published := fun _ _ h => h

theorem fresh_branchedAt (remote : List Commit) : (fresh remote).BranchedAt remote remote where
  own := ⟨[], by simp [fresh], by simp⟩
  others := ⟨[], by simp, by simp⟩
  tracking := List.prefix_refl _

/-- The remote branch grows by commits of other writers. -/
theorem BranchedAt.grow {base remote : List Commit} {r : Clone} (h : r.BranchedAt base remote)
    (ids : List ℕ) : r.BranchedAt base (remote ++ ids.map .other) where
  own := h.own
  others := by
    obtain ⟨others, rfl, hothers⟩ := h.others
    refine ⟨others ++ ids.map .other, by rw [List.append_assoc], ?_⟩
    intro c hc
    rcases List.mem_append.mp hc with hc | hc
    · exact hothers c hc
    · obtain ⟨id, -, rfl⟩ := List.mem_map.mp hc
      exact ⟨id, rfl⟩
  tracking := h.tracking.trans (List.prefix_append _ _)

theorem Settled.fetched {r : Clone} (h : r.Settled) (remote : List Commit) :
    ({ r with tracking := remote } : Clone).Settled :=
  ⟨h.idle, h.staged, h.cleanRaw, h.cleanActive, h.published⟩

theorem BranchedAt.fetched {r : Clone} {base remote : List Commit} (h : r.BranchedAt base remote) :
    ({ r with tracking := remote } : Clone).BranchedAt base remote ∧ base <+: remote := by
  refine ⟨⟨h.own, h.others, List.prefix_refl _⟩, ?_⟩
  obtain ⟨others, hremote, -⟩ := h.others
  rw [hremote]
  exact List.prefix_append _ _

/-- A rebase onto what was fetched keeps the published files of the clone and makes the
remote-tracking branch the base. -/
theorem BranchedAt.rebased {base remote : List Commit} {r : Clone} (h : r.BranchedAt base remote)
    (hfetched : base <+: r.tracking) :
    tree r.rebased = tree r.head ∧
      ({ r with head := r.rebased } : Clone).BranchedAt r.tracking remote := by
  obtain ⟨own, hhead, hown⟩ := h.own
  obtain ⟨others, hremote, hothers⟩ := h.others
  obtain ⟨fetched, hfetch⟩ := hfetched
  obtain ⟨unseen, hunseen⟩ := h.tracking
  have hsplit : others = fetched ++ unseen := by
    rw [hremote, ← hfetch, List.append_assoc] at hunseen
    exact (List.append_cancel_left hunseen).symm
  have hfetchedOther : ∀ c ∈ fetched, c.IsOther := fun c hc =>
    hothers c (by rw [hsplit]; exact List.mem_append_left _ hc)
  have hrebased : r.rebased = r.tracking ++ own := by
    rw [Clone.rebased, ← hfetch, hhead, rebase_append (disjoint_of_kinds hfetchedOther hown)]
  refine ⟨?_, ?_⟩
  · rw [hrebased, ← hfetch, hhead, tree_insert_others hfetchedOther]
  · refine ⟨⟨own, hrebased, hown⟩, ⟨unseen, hunseen.symm, ?_⟩, h.tracking⟩
    intro c hc
    exact hothers c (by rw [hsplit]; exact List.mem_append_right _ hc)

/-- The snapshot is committed in the clone. -/
structure Published (feed : Feed) (r : Clone) : Prop where
  settled : r.Settled
  committed : tree r.head = feed.files

/-- The first file is written. -/
structure HalfWritten (feed : Feed) (changed : Bool) (r : Clone) : Prop where
  idle : r.rebasing = false
  staged : r.index = tree r.head
  written : r.worktree.activeRaw = some feed.raw
  cleanActive : r.index.active ≠ none → r.worktree.active = r.index.active
  unchanged : changed = false → r.Settled
  changed : changed = true → r.index.activeRaw ≠ some feed.raw

/-- Both files are written, and one of them is new. -/
structure Written (feed : Feed) (r : Clone) : Prop where
  idle : r.rebasing = false
  staged : r.index = tree r.head
  written : r.worktree = feed.files
  changed : r.index ≠ feed.files

/-- Both files are staged, and one of them is new. -/
structure Staged (feed : Feed) (r : Clone) : Prop where
  idle : r.rebasing = false
  staged : r.index = feed.files
  written : r.worktree = feed.files
  changed : tree r.head ≠ feed.files

/-- A file that is new to the working tree is new to the index. -/
theorem index_ne_of_changed {index worktree : Option (List UInt8)} {content : List UInt8}
    (hclean : index ≠ none → worktree = index) (hchanged : worktree ≠ some content) :
    index ≠ some content := by
  rintro rfl
  exact hchanged (hclean (by simp))

theorem Settled.writeRaw {r : Clone} (h : r.Settled) (feed : Feed) :
    ({ r with worktree := { r.worktree with activeRaw := some feed.raw } } : Clone).HalfWritten
      feed (decide (r.worktree.activeRaw ≠ some feed.raw)) where
  idle := h.idle
  staged := h.staged
  written := rfl
  cleanActive := h.cleanActive
  unchanged := by
    intro hsame
    have hraw : r.worktree.activeRaw = some feed.raw := by simpa using hsame
    rw [← hraw]
    exact h
  changed := by
    intro hchanged
    exact index_ne_of_changed h.cleanRaw (by simpa using hchanged)

theorem HalfWritten.writeActive {r : Clone} {feed : Feed} {changed : Bool}
    (h : r.HalfWritten feed changed)
    (hchanged : (changed || decide (r.worktree.active ≠ some feed.encoded)) = true) :
    ({ r with worktree := { r.worktree with active := some feed.encoded } } : Clone).Written
      feed where
  idle := h.idle
  staged := h.staged
  written := by simp [Feed.files, h.written]
  changed := by
    intro hindex
    rcases Bool.or_eq_true_iff.mp hchanged with hraw | hactive
    · exact h.changed hraw (by rw [hindex]; rfl)
    · have := index_ne_of_changed h.cleanActive (by simpa using hactive)
      exact this (by rw [hindex]; rfl)

/-- If neither file is new, the snapshot is committed already. -/
theorem HalfWritten.unchanged_published {r : Clone} {configs : List Text} {changed : Bool}
    (h : r.HalfWritten (render configs) changed) (hconfigs : configs ≠ [])
    (hsame : (changed || decide (r.worktree.active ≠ some (render configs).encoded)) = false) :
    r.Published (render configs) ∧
      { r with worktree := { r.worktree with active := some (render configs).encoded } } = r := by
  obtain ⟨hraw, hactive⟩ := Bool.or_eq_false_iff.mp hsame
  have hactive : r.worktree.active = some (render configs).encoded := by simpa using hactive
  have hsettled := h.unchanged hraw
  have hfiles : r.worktree = (render configs).files := PublishedFiles.ext h.written hactive
  refine ⟨⟨hsettled, hsettled.published configs hconfigs hfiles⟩, ?_⟩
  rw [← hactive]

theorem Written.add {r : Clone} {feed : Feed} (h : r.Written feed) :
    ({ r with index := r.worktree } : Clone).Staged feed where
  idle := h.idle
  staged := h.written
  written := h.written
  changed := by
    rw [← h.staged]
    exact h.changed

theorem Staged.commit {r : Clone} {feed : Feed} (h : r.Staged feed) :
    r.canCommit = true ∧ r.commit.Published feed := by
  have hcan : r.canCommit = true := by
    simp only [canCommit, h.staged, decide_eq_true_eq]
    exact h.changed.symm
  have hcommit : r.commit = { r with head := r.head ++ [.published r.index] } := by
    simp [Clone.commit, hcan]
  refine ⟨hcan, ?_⟩
  rw [hcommit]
  constructor
  · constructor
    · exact h.idle
    · simp
    · intro _
      show r.worktree.activeRaw = r.index.activeRaw
      rw [h.written, h.staged]
    · intro _
      show r.worktree.active = r.index.active
      rw [h.written, h.staged]
    · intro configs _ hfiles
      have : r.worktree = (render configs).files := hfiles
      simp [h.staged, ← this, h.written]
  · simp [h.staged]

theorem BranchedAt.commit {base remote : List Commit} {r : Clone} (h : r.BranchedAt base remote) :
    r.commit.BranchedAt base remote := by
  unfold Clone.commit
  split
  · obtain ⟨own, hhead, hown⟩ := h.own
    refine ⟨⟨own ++ [.published r.index], ?_, ?_⟩, h.others, h.tracking⟩
    · rw [hhead, List.append_assoc]
    · intro c hc
      rcases List.mem_append.mp hc with hc | hc
      · exact hown c hc
      · exact ⟨r.index, by simpa using hc⟩
  · exact h

end Clone

end ProxyFleet
