import Mathlib.Data.List.DropRight
import ProxyFleet.ObservedRuns

/-!
# Logs that stay small

A buffer keeps the end of what is written to it, in chunks of any size. A sampler lets one entry
of a key pass in a window of time. It forgets what has left the window, and as long as time does
not run backwards it decides like a limiter that remembers everything.
-/
namespace ProxyFleet.BoundedLogs

open ObservedRuns

section Tails

variable {α : Type*} (limit : ℕ)

/-- What the buffer has dropped would be dropped anyway. -/
theorem rtake_append_rtake (l m : List α) : (l.rtake limit ++ m).rtake limit =
    (l ++ m).rtake limit := by
  simp only [List.rtake, List.length_append, List.length_drop, List.drop_append, List.drop_drop]
  congr 2 <;> omega

theorem length_rtake_le (l : List α) : (l.rtake limit).length ≤ limit := by
  rw [List.rtake, List.length_drop]
  omega

theorem rtake_eq_self {l : List α} (h : l.length ≤ limit) : l.rtake limit = l := by
  rw [List.rtake, Nat.sub_eq_zero_of_le h, List.drop_zero]

end Tails

section Sampling

variable {α : Type*} [DecidableEq α] (window : ℕ)

/-- The entries that a window that ends now still holds. -/
def recent (entries : List (α × ℕ)) (now : ℕ) : List (α × ℕ) :=
  entries.filter fun entry => decide (now - entry.2 < window)

/-- The samples in memory, and all entries that passed, the newest first. -/
structure SampledLog (α : Type*) where
  samples : List (α × ℕ) := []
  passed : List (α × ℕ) := []

/-- An entry passes if there is no recent sample of its key. -/
def sample (log : SampledLog α) (entry : α × ℕ) : SampledLog α :=
  if entry.1 ∈ (recent window log.samples entry.2).map Prod.fst then
    { log with samples := recent window log.samples entry.2 }
  else
    { samples := entry :: recent window log.samples entry.2
      passed := entry :: log.passed }

/-- A limiter that remembers everything that passed. -/
def limit (passed : List (α × ℕ)) (entry : α × ℕ) : List (α × ℕ) :=
  if ∀ earlier ∈ passed, earlier.1 = entry.1 → earlier.2 + window ≤ entry.2 then entry :: passed
  else passed

/-- Entries of one key that pass are a window apart. -/
theorem limit_spaced {passed : List (α × ℕ)} (entries : List (α × ℕ))
    (h : passed.Pairwise fun later earlier => earlier.1 = later.1 → earlier.2 + window ≤ later.2) :
    (run (limit window) passed entries).Pairwise
      fun later earlier => earlier.1 = later.1 → earlier.2 + window ≤ later.2 := by
  refine run_preserves ?_ h entries
  intro passed entry hspaced
  unfold limit
  split
  · rename_i hfree
    exact List.pairwise_cons.mpr ⟨hfree, hspaced⟩
  · exact hspaced

variable {window}

omit [DecidableEq α] in
theorem recent_recent {entries : List (α × ℕ)} {now later : ℕ} (h : now ≤ later) :
    recent window (recent window entries now) later = recent window entries later := by
  rw [recent, recent, List.filter_filter]
  apply List.filter_congr
  intro entry _
  rw [← Bool.decide_and, decide_eq_decide]
  omega

/-- The sampler has forgotten exactly what has left the window. -/
def Remembers (window now : ℕ) (log : SampledLog α) (passed : List (α × ℕ)) : Prop :=
  log.passed = passed ∧ log.samples = recent window passed now ∧ ∀ entry ∈ passed, entry.2 ≤ now

theorem Remembers.sample (hwindow : 0 < window) {now : ℕ} {log : SampledLog α}
    {passed : List (α × ℕ)} (h : Remembers window now log passed) {entry : α × ℕ}
    (hnow : now ≤ entry.2) :
    Remembers window entry.2 (sample window log entry) (limit window passed entry) := by
  obtain ⟨rfl, hsamples, hpast⟩ := h
  have hrecent : recent window log.samples entry.2 = recent window log.passed entry.2 := by
    rw [hsamples, recent_recent hnow]
  have hfree : entry.1 ∈ (recent window log.passed entry.2).map Prod.fst ↔
      ¬ ∀ earlier ∈ log.passed, earlier.1 = entry.1 → earlier.2 + window ≤ entry.2 := by
    simp only [recent, List.mem_map, List.mem_filter, decide_eq_true_eq, not_forall, not_le]
    constructor
    · rintro ⟨earlier, ⟨hmem, hin⟩, hkey⟩
      exact ⟨earlier, hmem, hkey, by omega⟩
    · rintro ⟨earlier, hmem, hkey, hin⟩
      exact ⟨earlier, ⟨hmem, by omega⟩, hkey⟩
  have hold : ∀ earlier ∈ log.passed, earlier.2 ≤ entry.2 := fun earlier hmem =>
    (hpast earlier hmem).trans hnow
  unfold BoundedLogs.sample limit
  rw [hrecent]
  by_cases hpass : ∀ earlier ∈ log.passed, earlier.1 = entry.1 → earlier.2 + window ≤ entry.2
  · rw [if_neg (by rw [hfree]; exact not_not_intro hpass), if_pos hpass]
    refine ⟨rfl, ?_, List.forall_mem_cons.mpr ⟨le_rfl, hold⟩⟩
    simp [recent, hwindow]
  · rw [if_pos (hfree.mpr hpass), if_neg hpass]
    exact ⟨rfl, rfl, hold⟩

/-- As long as time does not run backwards, the sampler is the limiter. -/
theorem Remembers.run (hwindow : 0 < window) {now : ℕ} {log : SampledLog α}
    {passed : List (α × ℕ)} (h : Remembers window now log passed) {entries : List (α × ℕ)}
    (hordered : (now :: entries.map Prod.snd).Pairwise (· ≤ ·)) :
    Remembers window ((entries.map Prod.snd).getLastD now)
      (run (BoundedLogs.sample window) log entries) (run (limit window) passed entries) := by
  induction entries generalizing now log passed with
  | nil => exact h
  | cons entry entries ih =>
    rw [List.map_cons, List.pairwise_cons] at hordered
    have hnow := hordered.1 entry.2 List.mem_cons_self
    rw [List.map_cons, List.getLastD_cons]
    exact ih (h.sample hwindow hnow) hordered.2

theorem sample_passed (log : SampledLog α) (entry : α × ℕ) :
    log.passed ⊆ (BoundedLogs.sample window log entry).passed := by
  unfold BoundedLogs.sample
  split
  · exact List.Subset.refl _
  · exact List.subset_cons_self _ _

/-- An entry that does not pass has a sample of its key, which passed before. -/
theorem sample_covered (hwindow : 0 < window) {log : SampledLog α}
    (h : log.samples ⊆ log.passed) (entry : α × ℕ) :
    (BoundedLogs.sample window log entry).samples ⊆
        (BoundedLogs.sample window log entry).passed ∧
      ∃ line ∈ (BoundedLogs.sample window log entry).passed,
        line.1 = entry.1 ∧ entry.2 < line.2 + window := by
  have hsub : recent window log.samples entry.2 ⊆ log.passed := fun line hline =>
    h (List.mem_filter.mp hline).1
  unfold BoundedLogs.sample
  split
  · rename_i hseen
    obtain ⟨line, hline, hkey⟩ := List.mem_map.mp hseen
    refine ⟨hsub, line, hsub hline, hkey, ?_⟩
    have hin := of_decide_eq_true (List.mem_filter.mp hline).2
    omega
  · exact ⟨List.cons_subset_cons _ hsub, entry, List.mem_cons_self, rfl, by omega⟩

/-- Whatever the times, every entry that was offered has one of its key that passed and is less
than a window older, if it is older at all. -/
theorem run_covers (hwindow : 0 < window) {log : SampledLog α} (h : log.samples ⊆ log.passed)
    (entries : List (α × ℕ)) :
    ∀ entry ∈ entries, ∃ line ∈ (ObservedRuns.run (BoundedLogs.sample window) log entries).passed,
      line.1 = entry.1 ∧ entry.2 < line.2 + window := by
  induction entries generalizing log with
  | nil => exact List.forall_mem_nil _
  | cons entry entries ih =>
    obtain ⟨hsub, line, hline, hcovers⟩ := sample_covered hwindow h entry
    refine List.forall_mem_cons.mpr ⟨⟨line, ?_, hcovers⟩, ih hsub⟩
    exact run_preserves (I := fun later => line ∈ later.passed)
      (fun later next hmem => sample_passed later next hmem) hline entries

end Sampling

end ProxyFleet.BoundedLogs
