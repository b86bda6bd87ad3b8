import ProxyFleet.NewestWindows

/-!
# Windows on what was retained

A table drops old entries from time to time and keeps at least a number of the newest.
For every entry that is gone it still has that many that are no older, whatever came in
between. So a window of at most that many entries cannot tell that anything was dropped.
-/
namespace ProxyFleet.RetainedWindows

open NewestWindows

variable {α τ : Type*} [LinearOrder τ]

/-- The entries are split into those that are left and those that are gone. For each that is
gone, as many as `size` are left that are no older. -/
structure Accounting (time : α → τ) (all : List α) (size : ℕ) (kept dropped : List α) : Prop where
  perm : (kept ++ dropped).Perm all
  covered : ∀ b ∈ dropped, size ≤ kept.countP fun a => decide (time b ≤ time a)

def Retained (time : α → τ) (all : List α) (size : ℕ) (kept : List α) : Prop :=
  ∃ dropped, Accounting time all size kept dropped

variable {time : α → τ} {all kept chosen shown : List α} {size room : ℕ}

theorem retained_self (time : α → τ) (all : List α) (size : ℕ) : Retained time all size all :=
  ⟨[], by simp, by simp⟩

/-- New entries arrive. -/
theorem Retained.append (h : Retained time all size kept) (new : List α) :
    Retained time (all ++ new) size (kept ++ new) := by
  obtain ⟨dropped, hperm, hcovered⟩ := h
  refine ⟨dropped, ?_, ?_⟩
  · refine List.Perm.trans ?_ (hperm.append_right new)
    rw [List.append_assoc, List.append_assoc]
    exact List.perm_append_comm.append_left kept
  · intro b hb
    rw [List.countP_append]
    exact (hcovered b hb).trans (Nat.le_add_right _ _)

/-- Only the order of what is left changes. -/
theorem Retained.perm (h : Retained time all size kept) {kept' : List α}
    (hperm : kept'.Perm kept) : Retained time all size kept' := by
  obtain ⟨dropped, hall, hcovered⟩ := h
  refine ⟨dropped, (hperm.append_right dropped).trans hall, ?_⟩
  intro b hb
  rw [hperm.countP_eq]
  exact hcovered b hb

/-- What is newest in a table that leaves something out fills its room. -/
theorem length_of_left_out (h : Newest time kept room chosen) {rest : List α}
    (hperm : (chosen ++ rest).Perm kept) {b : α} (hb : b ∈ rest) : chosen.length = room := by
  have hfilled := h.filled
  have hlength := hperm.length_eq
  have hpos := List.length_pos_of_mem hb
  rw [List.length_append] at hlength
  omega

/-- All but the newest entries are dropped. -/
theorem Retained.prune (h : Retained time all size kept) (hroom : size ≤ room)
    (hnewest : Newest time kept room chosen) : Retained time all size chosen := by
  obtain ⟨dropped, hperm, hcovered⟩ := h
  obtain ⟨rest, hrest, hnewer⟩ := hnewest.complete
  -- An entry that is not newer than one left out is covered by all that are left.
  have hcover : ∀ b, (∃ c ∈ rest, time b ≤ time c) →
      size ≤ chosen.countP fun a => decide (time b ≤ time a) := by
    rintro b ⟨c, hc, hbc⟩
    have hall : (chosen.countP fun a => decide (time b ≤ time a)) = chosen.length := by
      apply List.countP_eq_length.mpr
      intro a ha
      exact decide_eq_true (hbc.trans (hnewer a ha c hc))
    rw [hall, length_of_left_out hnewest hrest hc]
    exact hroom
  refine ⟨rest ++ dropped, ?_, ?_⟩
  · rw [← List.append_assoc]
    exact (hrest.append_right dropped).trans hperm
  · intro b hb
    rcases List.mem_append.mp hb with hb | hb
    · exact hcover b ⟨b, hb, le_rfl⟩
    · by_cases hleft : ∃ c ∈ rest, time b ≤ time c
      · exact hcover b hleft
      · have hnone : (rest.countP fun a => decide (time b ≤ time a)) = 0 := by
          apply List.countP_eq_zero.mpr
          intro c hc
          rw [decide_eq_true_eq]
          exact fun hbc => hleft ⟨c, hc, hbc⟩
        have hcount := hcovered b hb
        rw [← hrest.countP_eq, List.countP_append, hnone] at hcount
        exact hcount

/-- A window that is no larger than what is always kept shows the newest entries of all times. -/
theorem Retained.newest (h : Retained time all size kept) (hsize : room ≤ size)
    (hshown : Newest time kept room shown) : Newest time all room shown := by
  obtain ⟨dropped, hperm, hcovered⟩ := h
  obtain ⟨rest, hrest, hnewer⟩ := hshown.complete
  refine ⟨hshown.sorted, ?_, rest ++ dropped, ?_, ?_⟩
  · cases dropped with
    | nil =>
      rw [← hperm.length_eq, List.append_nil]
      exact hshown.filled
    | cons b dropped =>
      have hcount := hcovered b (List.mem_cons_self ..)
      have hle : (kept.countP fun a => decide (time b ≤ time a)) ≤ kept.length :=
        List.countP_le_length
      have hfilled := hshown.filled
      rw [← hperm.length_eq, List.length_append]
      omega
  · rw [← List.append_assoc]
    exact (hrest.append_right dropped).trans hperm
  · intro a ha b hb
    rcases List.mem_append.mp hb with hb | hb
    · exact hnewer a ha b hb
    · by_contra hlt
      -- Then all that covers `b` is newer than `a`, more than is shown before `a`.
      have hbefore : (kept.countP fun c => decide (time b ≤ time c)) < shown.length := by
        have hnone : (rest.countP fun c => decide (time b ≤ time c)) = 0 := by
          apply List.countP_eq_zero.mpr
          intro c hc
          rw [decide_eq_true_eq]
          exact not_le.mpr ((hnewer a ha c hc).trans_lt (not_le.mp hlt))
        rw [← hrest.countP_eq, List.countP_append, hnone]
        exact List.countP_lt_length_iff.mpr ⟨a, ha, decide_eq_false hlt⟩
      have hcount := hcovered b hb
      have hfilled := hshown.filled
      omega

/-- An entry is still there as long as at most `size` are no older than it. -/
theorem Retained.mem (h : Retained time all size kept) {e : α} (he : e ∈ all)
    (hfew : (all.countP fun a => decide (time e ≤ time a)) ≤ size) : e ∈ kept := by
  obtain ⟨dropped, hperm, hcovered⟩ := h
  rcases List.mem_append.mp (hperm.mem_iff.mpr he) with hkept | hdropped
  · exact hkept
  · have hcount := hcovered e hdropped
    have hself : 0 < dropped.countP fun a => decide (time e ≤ time a) :=
      List.countP_pos_iff.mpr ⟨e, hdropped, decide_eq_true le_rfl⟩
    rw [← hperm.countP_eq, List.countP_append] at hfew
    omega

/-- Entries with distinct names are told apart by their names. -/
theorem perm_filter_names {β : Type*} [DecidableEq β] {name : α → β} {all chosen rest : List α}
    (hperm : (chosen ++ rest).Perm all) (distinct : (all.map name).Nodup) :
    (all.filter fun a => decide (name a ∈ chosen.map name)).Perm chosen := by
  have hboth : ((chosen ++ rest).map name).Nodup := (hperm.map name).nodup_iff.mpr distinct
  rw [List.map_append] at hboth
  have hdistinct := (List.nodup_append.mp hboth).2.2
  refine (hperm.symm.filter _).trans ?_
  have hchosen : chosen.filter (fun a => decide (name a ∈ chosen.map name)) = chosen := by
    rw [List.filter_eq_self]
    intro a ha
    exact decide_eq_true (List.mem_map_of_mem ha)
  have hrest : rest.filter (fun a => decide (name a ∈ chosen.map name)) = [] := by
    rw [List.filter_eq_nil_iff]
    intro a ha
    rw [decide_eq_true_eq]
    exact fun hmem => hdistinct _ hmem _ (List.mem_map_of_mem ha) rfl
  rw [List.filter_append, hchosen, hrest, List.append_nil]

end ProxyFleet.RetainedWindows
