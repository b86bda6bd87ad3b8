import Mathlib.Data.List.Count
import Mathlib.Data.List.Perm.Basic
import Mathlib.Order.Lattice

/-!
# Windows on the newest entries

A window shows the newest entries of a list, newest first, as many as it has room for. Where a
second list only fills the room that the first one leaves, the merged window shows the newest
entries of both as long as not too many of the second list are newer than what it shows of the
first.
-/
namespace ProxyFleet.NewestWindows

variable {α β τ : Type*} [LinearOrder τ]

structure Newest (time : α → τ) (entries : List α) (size : ℕ) (chosen : List α) : Prop where
  sorted : chosen.Pairwise fun a b => time b ≤ time a
  filled : chosen.length = min size entries.length
  complete : ∃ rest, (chosen ++ rest).Perm entries ∧ ∀ a ∈ chosen, ∀ b ∈ rest, time b ≤ time a

/-- How many entries are newer than a time. -/
def newerCount (time : α → τ) (entries : List α) (t : τ) : ℕ :=
  entries.countP fun entry => decide (t < time entry)

section Windows

variable {time : α → τ} {entries sorted chosen chosen' rest : List α} {size : ℕ} {t : τ}

theorem newerCount_map (f : β → α) (entries : List β) :
    newerCount time (entries.map f) t = newerCount (time ∘ f) entries t := by
  rw [newerCount, newerCount, List.countP_map]
  rfl

theorem newerCount_eq_zero (h : ∀ b ∈ entries, time b ≤ t) : newerCount time entries t = 0 := by
  apply List.countP_eq_zero.mpr
  intro b hb
  rw [decide_eq_true_eq]
  exact not_lt.mpr (h b hb)

theorem newerCount_eq_length (h : ∀ b ∈ entries, t < time b) :
    newerCount time entries t = entries.length := by
  apply List.countP_eq_length.mpr
  intro b hb
  exact decide_eq_true (h b hb)

theorem newerCount_lt {a : α} (ha : a ∈ entries) (hle : time a ≤ t) :
    newerCount time entries t < entries.length :=
  List.countP_lt_length_iff.mpr ⟨a, ha, decide_eq_false (not_lt.mpr hle)⟩

/-- The front of a sorted list. -/
theorem newest_take (hsorted : sorted.Pairwise fun a b => time b ≤ time a)
    (hperm : sorted.Perm entries) (size : ℕ) : Newest time entries size (sorted.take size) where
  sorted := hsorted.sublist (List.take_sublist _ _)
  filled := by rw [List.length_take, hperm.length_eq]
  complete := by
    refine ⟨sorted.drop size, ?_, ?_⟩
    · rw [List.take_append_drop]
      exact hperm
    · rw [← List.take_append_drop size sorted] at hsorted
      exact (List.pairwise_append.mp hsorted).2.2

theorem Newest.map (f : β → α) {entries chosen : List β}
    (h : Newest (time ∘ f) entries size chosen) :
    Newest time (entries.map f) size (chosen.map f) where
  sorted := List.pairwise_map.mpr h.sorted
  filled := by
    rw [List.length_map, List.length_map]
    exact h.filled
  complete := by
    obtain ⟨rest, hperm, hnewer⟩ := h.complete
    refine ⟨rest.map f, ?_, ?_⟩
    · rw [← List.map_append]
      exact hperm.map f
    · intro a ha b hb
      obtain ⟨a', ha', rfl⟩ := List.mem_map.mp ha
      obtain ⟨b', hb', rfl⟩ := List.mem_map.mp hb
      exact hnewer a' ha' b' hb'

/-- Whether entries are the newest depends on their times. -/
theorem Newest.congr (h : Newest time entries size chosen)
    (htimes : chosen.map time = chosen'.map time) (hperm : (chosen' ++ rest).Perm entries) :
    Newest time entries size chosen' where
  sorted := by
    have hsorted : (chosen.map time).Pairwise fun s t => t ≤ s := List.pairwise_map.mpr h.sorted
    rw [htimes] at hsorted
    exact List.pairwise_map.mp hsorted
  filled := by
    have hlength := congrArg List.length htimes
    rw [List.length_map, List.length_map] at hlength
    rw [← hlength]
    exact h.filled
  complete := by
    obtain ⟨rest', hperm', hnewer⟩ := h.complete
    have hrest : (rest.map time).Perm (rest'.map time) := by
      have hboth := (hperm.trans hperm'.symm).map time
      rw [List.map_append, List.map_append, htimes] at hboth
      exact (List.perm_append_left_iff _).mp hboth
    refine ⟨rest, hperm, ?_⟩
    intro a ha b hb
    have hatime := List.mem_map_of_mem (f := time) ha
    have hbtime := hrest.mem_iff.mp (List.mem_map_of_mem (f := time) hb)
    rw [← htimes] at hatime
    obtain ⟨a', ha', hatime⟩ := List.mem_map.mp hatime
    obtain ⟨b', hb', hbtime⟩ := List.mem_map.mp hbtime
    rw [← hatime, ← hbtime]
    exact hnewer a' ha' b' hb'

end Windows

section Merges

variable {time : α → τ} {first second shownFirst shownSecond shown : List α} {size : ℕ}

/-- What neither list shows is left out of the merged window. -/
theorem perm_merged {restFirst restSecond : List α}
    (hfirst : (shownFirst ++ restFirst).Perm first)
    (hsecond : (shownSecond ++ restSecond).Perm second)
    (hshown : shown.Perm (shownFirst ++ shownSecond)) :
    (shown ++ (restFirst ++ restSecond)).Perm (first ++ second) := by
  refine (hshown.append_right _).trans (.trans ?_ (hfirst.append hsecond))
  rw [List.append_assoc, List.append_assoc]
  apply List.Perm.append_left
  rw [← List.append_assoc, ← List.append_assoc]
  exact List.perm_append_comm.append_right _

/-- Among the shown entries of the first list is one that is no newer than a given entry with
room for it. -/
theorem exists_shown_le (h : Newest time first size shownFirst) {e : α} (he : e ∈ first)
    (hroom : newerCount time first (time e) < size) : ∃ a ∈ shownFirst, time a ≤ time e := by
  obtain ⟨rest, hperm, hnewer⟩ := h.complete
  rcases List.mem_append.mp (hperm.mem_iff.mpr he) with hshown | hrest
  · exact ⟨e, hshown, le_rfl⟩
  · by_contra hall
    push Not at hall
    have hcount : newerCount time first (time e) =
        newerCount time shownFirst (time e) + newerCount time rest (time e) := by
      rw [newerCount, ← hperm.countP_eq, List.countP_append]
      rfl
    have hlength := hperm.length_eq
    have hpos := List.length_pos_of_mem hrest
    have hfilled := h.filled
    rw [newerCount_eq_length hall] at hcount
    rw [List.length_append] at hlength
    omega

/-- The merged window, where the second list fills the room that the first one leaves. -/
theorem merged_iff (hfirst : Newest time first size shownFirst)
    (hsecond : Newest time second (size - shownFirst.length) shownSecond)
    (hshown : shown.Perm (shownFirst ++ shownSecond))
    (hsorted : shown.Pairwise fun a b => time b ≤ time a) :
    Newest time (first ++ second) size shown ↔
      ∀ e ∈ first, newerCount time first (time e) < size →
        newerCount time second (time e) ≤ size - first.length := by
  obtain ⟨restFirst, hpermFirst, hnewerFirst⟩ := hfirst.complete
  obtain ⟨restSecond, hpermSecond, hnewerSecond⟩ := hsecond.complete
  have hfilledFirst := hfirst.filled
  have hfilledSecond := hsecond.filled
  have hcount : ∀ t, newerCount time second t =
      newerCount time shownSecond t + newerCount time restSecond t := by
    intro t
    rw [newerCount, ← hpermSecond.countP_eq, List.countP_append]
    rfl
  have hboth := perm_merged hpermFirst hpermSecond hshown
  constructor
  · intro h e he hroom
    obtain ⟨rest, hperm, hnewer⟩ := h.complete
    have hrest : rest.Perm (restFirst ++ restSecond) :=
      (List.perm_append_left_iff _).mp (hperm.trans hboth.symm)
    obtain ⟨a, ha, hae⟩ := exists_shown_le hfirst he hroom
    -- What is left out of the second list is no newer than any shown entry of the first.
    have hleft : newerCount time restSecond (time e) = 0 := by
      apply newerCount_eq_zero
      intro b hb
      refine le_trans (hnewer a ?_ b ?_) hae
      · exact hshown.mem_iff.mpr (List.mem_append_left _ ha)
      · exact hrest.mem_iff.mpr (List.mem_append_right _ hb)
    have hle : newerCount time shownSecond (time e) ≤ shownSecond.length :=
      List.countP_le_length
    rw [hcount, hleft]
    omega
  · intro h
    refine ⟨hsorted, ?_, restFirst ++ restSecond, hboth, ?_⟩
    · rw [hshown.length_eq, List.length_append, List.length_append]
      omega
    · intro a ha b hb
      have hlengthFirst := hpermFirst.length_eq
      have hlengthSecond := hpermSecond.length_eq
      rw [List.length_append] at hlengthFirst hlengthSecond
      rcases List.mem_append.mp (hshown.mem_iff.mp ha) with ha | ha <;>
        rcases List.mem_append.mp hb with hb | hb
      · exact hnewerFirst a ha b hb
      · by_contra hlt
        have hroom : newerCount time first (time a) < size := by
          rw [newerCount, ← hpermFirst.countP_eq, List.countP_append]
          have hnone := newerCount_eq_zero (hnewerFirst a ha)
          have hself := newerCount_lt ha (le_refl (time a))
          rw [newerCount] at hnone hself
          omega
        -- All shown entries of the second list are newer than the one that is left out.
        have hall : newerCount time shownSecond (time a) = shownSecond.length :=
          newerCount_eq_length fun c hc => lt_of_lt_of_le (not_le.mp hlt) (hnewerSecond c hc b hb)
        have hleft : 0 < newerCount time restSecond (time a) :=
          List.countP_pos_iff.mpr ⟨b, hb, decide_eq_true (not_le.mp hlt)⟩
        have hpos := List.length_pos_of_mem hb
        have hfew := h a (hpermFirst.mem_iff.mp (List.mem_append_left _ ha)) hroom
        rw [hcount, hall] at hfew
        omega
      · have hpos := List.length_pos_of_mem hb
        have hshownPos := List.length_pos_of_mem ha
        omega
      · exact hnewerSecond a ha b hb

end Merges

end ProxyFleet.NewestWindows
