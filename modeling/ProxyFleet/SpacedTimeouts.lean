import Mathlib.Data.Rat.Cast.Order
import ProxyFleet.OutageDemotion

/-!
# Timeouts two hours apart

The weight of a timeout halves in two hours. Timeouts that come at least two hours apart
never add up to more than two, and a row without other evidence stays in `PROBATION`
through any number of them. The backoff may choose such delays from the second failure on.
-/
namespace ProxyFleet

theorem le_numMilliseconds {n : ℤ} {d : Time} (h : n * 1000000 ≤ d) : n ≤ numMilliseconds d := by
  have hn : (n * 1000000).tdiv 1000000 = n := Int.mul_tdiv_cancel n (by norm_num)
  calc n = (n * 1000000).tdiv 1000000 := hn.symm
    _ ≤ numMilliseconds d := Int.tdiv_le_tdiv (by norm_num) h

/-- A weight of at most one is at most `2⁻ⁿ` after `n` half-lives of two hours. -/
theorem decay_le_pow {value : ℝ} (nonneg : 0 ≤ value) (small : value ≤ 1) {elapsed : Time} {n : ℕ}
    (aged : hours (2 * n) ≤ elapsed) : decay value elapsed (hours 2) ≤ (1 / 2) ^ n := by
  rcases le_or_gt elapsed 0 with he | he
  · have hn : n = 0 := by
      unfold hours minutes seconds at aged
      unfold Time at he aged
      omega
    rw [RealEvidence.decay_of_nonpos nonneg he, hn, pow_zero]
    exact small
  · have hms : (7200000 * n : ℤ) ≤ numMilliseconds elapsed := by
      apply le_numMilliseconds
      unfold hours minutes seconds at aged
      unfold Time at aged
      linarith
    have hhalf : (max (numMilliseconds (hours 2)) 1 : ℤ) = 7200000 := by decide
    have hratio : (n : ℝ) ≤ (numMilliseconds elapsed : ℝ) / (7200000 : ℤ) := by
      rw [le_div_iff₀ (by norm_num)]
      have : ((7200000 * n : ℤ) : ℝ) ≤ (numMilliseconds elapsed : ℝ) := Int.cast_le.mpr hms
      push_cast at this ⊢
      linarith
    rw [RealEvidence.decay_of_pos nonneg he, hhalf]
    calc value * (1 / 2 : ℝ) ^ ((numMilliseconds elapsed : ℝ) / (7200000 : ℤ))
        ≤ 1 * (1 / 2 : ℝ) ^ ((numMilliseconds elapsed : ℝ) / (7200000 : ℤ)) :=
          mul_le_mul_of_nonneg_right small (Real.rpow_nonneg (by norm_num) _)
      _ ≤ 1 * (1 / 2 : ℝ) ^ (n : ℝ) := by
          rw [one_mul, one_mul]
          exact Real.rpow_le_rpow_of_exponent_ge (by norm_num) (by norm_num) hratio
      _ = (1 / 2) ^ n := by rw [one_mul, Real.rpow_natCast]

/-- The shares of the runs in a weight that timeouts two hours apart cannot exceed. The first
two runs may follow each other at once. -/
def share (k i : ℕ) : ℚ := if i = 0 then 2 * (1 / 2) ^ k else (1 / 2) ^ (k - i)

theorem share_nonneg (k i : ℕ) : 0 ≤ share k i := by
  unfold share
  split <;> positivity

theorem sum_share (k : ℕ) : ((List.range (k + 1)).map (share k)).sum = 2 := by
  induction k with
  | zero => norm_num [share]
  | succ k ih =>
    have hhalf : ∀ i ∈ List.range (k + 1), share (k + 1) i = share k i * (1 / 2) := by
      intro i hi
      have hle : i ≤ k := Nat.lt_succ_iff.mp (List.mem_range.mp hi)
      unfold share
      split
      · rw [pow_succ, mul_assoc]
      · rw [Nat.succ_sub hle, pow_succ]
    have hlast : share (k + 1) (k + 1) = 1 := by simp [share]
    rw [List.range_succ, List.map_append, List.sum_append, List.map_congr_left hhalf,
      List.sum_map_mul_right, ih, List.map_singleton, List.sum_singleton, hlast]
    norm_num

/-- A failure that weighs at most one and halves in two hours. -/
def FailedRun.Timeout (run : FailedRun) : Prop :=
  (delta (F := ℝ) run.stage run.failureClass false).beta ≤ 1 ∧
    (delta (F := ℝ) run.stage run.failureClass false).halfLife = hours 2

namespace SustainedOutage

variable {o : SustainedOutage ℝ}

/-- Each run but the first comes two hours or more before the next. -/
def SpacedApart (o : SustainedOutage ℝ) : Prop :=
  ∀ k, 1 ≤ k → o.dueTime k + hours 2 ≤ o.dueTime (k + 1)

theorem SpacedApart.elapsed (spaced : o.SpacedApart) (i : ℕ) (d : ℕ) :
    hours (2 * ((d - if i = 0 then 1 else 0 : ℕ) : ℤ)) ≤ o.dueTime (i + d) - o.dueTime i := by
  induction d with
  | zero => simp [hours, minutes, seconds]
  | succ d ih =>
    by_cases hfirst : i + d = 0
    · obtain ⟨rfl, rfl⟩ : i = 0 ∧ d = 0 := by omega
      have := o.dueTime_mono (Nat.zero_le 1)
      simpa [hours, minutes, seconds] using this
    · have hgap := spaced (i + d) (Nat.one_le_iff_ne_zero.mpr hfirst)
      rw [← Nat.add_assoc]
      generalize o.dueTime (i + d + 1) = later at hgap ⊢
      generalize o.dueTime (i + d) = now at hgap ih
      generalize o.dueTime i = first at ih ⊢
      unfold hours minutes seconds at hgap ih ⊢
      unfold Time at *
      split at ih
      · next hi =>
        rw [if_pos hi]
        omega
      · next hi =>
        rw [if_neg hi]
        omega

theorem failureWeight_le_share (spaced : o.SpacedApart) {i : ℕ} (timeout : (o.runs i).Timeout)
    {k : ℕ} (hi : i ≤ k) : o.failureWeight k i ≤ (share k i : ℝ) := by
  obtain ⟨hsmall, hhalf⟩ := timeout
  have hnonneg : 0 ≤ (delta (F := ℝ) (o.runs i).stage (o.runs i).failureClass false).beta := by
    have h := RealEvidence.le_iff.mp
      (delta_beta_nonneg (F := ℝ) (o.runs i).stage (o.runs i).failureClass false)
    rwa [RealEvidence.ofRat_eq, Rat.cast_zero] at h
  obtain ⟨d, rfl⟩ := Nat.exists_eq_add_of_le hi
  have haged := decay_le_pow hnonneg hsmall (spaced.elapsed i d)
  unfold failureWeight
  rw [hhalf]
  refine haged.trans ?_
  unfold share
  split
  · next hfirst =>
    subst hfirst
    cases d with
    | zero => norm_num
    | succ d =>
      rw [Nat.zero_add, Nat.add_sub_cancel, pow_succ]
      push_cast
      linarith
  · simp

theorem outageWeight_le_two (spaced : o.SpacedApart) (timeouts : ∀ i, (o.runs i).Timeout) (k : ℕ) :
    o.outageWeight k ≤ 2 := by
  have hsub : (o.countedRuns k).Sublist (List.range (k + 1)).reverse :=
    List.filter_sublist.trans (List.take_sublist _ _)
  have hshare : ∀ i ∈ o.countedRuns k, o.failureWeight k i ≤ (share k i : ℝ) := by
    intro i hi
    have hrange := List.mem_range.mp (List.mem_reverse.mp (hsub.subset hi))
    exact failureWeight_le_share spaced (timeouts i) (Nat.lt_succ_iff.mp hrange)
  have hsum : ((o.countedRuns k).map (share k)).sum ≤ 2 := by
    calc ((o.countedRuns k).map (share k)).sum
        ≤ ((List.range (k + 1)).reverse.map (share k)).sum := by
          apply (hsub.map (share k)).sum_le_sum
          intro x hx
          obtain ⟨i, -, rfl⟩ := List.mem_map.mp hx
          exact share_nonneg k i
      _ = ((List.range (k + 1)).map (share k)).sum := ((List.reverse_perm _).map _).sum_eq
      _ = 2 := sum_share k
  calc o.outageWeight k
      ≤ ((o.countedRuns k).map fun i => (share k i : ℝ)).sum := List.sum_le_sum hshare
    _ = (((o.countedRuns k).map (share k)).sum : ℚ) := by
        rw [Rat.cast_list_sum, List.map_map]
        rfl
    _ ≤ 2 := by exact_mod_cast hsum

section Alone

variable (alone : ∀ e ∈ o.store.events, e.proxyId ≠ o.id)

include alone

theorem priorEvidence_of_alone (k : ℕ) : o.priorEvidence k = [] := by
  apply List.eq_nil_iff_forall_not_mem.mpr
  intro e he
  obtain ⟨hmem, hown⟩ := List.mem_filter.mp
    ((List.mem_insertionSort _).mp (List.mem_of_mem_take (List.mem_of_mem_take he)))
  rw [Bool.and_eq_true, decide_eq_true_iff] at hown
  exact alone e hmem hown.1

theorem alpha_of_alone (k : ℕ) : o.alpha k = 1 := by
  unfold alpha priorAlpha
  rw [priorEvidence_of_alone alone]
  norm_num [maxEffectiveAlpha]

theorem beta_of_alone (k : ℕ) :
    o.beta k = min (1 + o.outageWeight k) (maxEffectiveBeta : ℚ) := by
  unfold beta priorBeta
  rw [priorEvidence_of_alone alone]
  norm_num

theorem not_promotes_of_alone (k : ℕ) : ¬ o.Promotes k := by
  have hweight := outageWeight_nonneg (o := o) (k := k)
  have hbeta : 1 ≤ min (1 + o.outageWeight k) (maxEffectiveBeta : ℚ) :=
    le_min (by linarith) (by norm_num [maxEffectiveBeta])
  unfold Promotes
  rw [alpha_of_alone alone, beta_of_alone alone]
  linarith

/-- A row in `PROBATION` without other evidence waits for the first run that is heavy enough. -/
theorem collapses_of_alone (probation : o.row.lifecycleState = .probation) {k n : ℕ} (hk : k < n)
    (abandons : o.Abandons k) : o.Collapses n := by
  classical
  have hsome : ∃ k, o.Abandons k := ⟨k, abandons⟩
  refine ⟨0, Nat.find hsome, .probation probation, ⟨Nat.zero_le _, fun i _ hi => ?_⟩,
    Nat.find_spec hsome, (Nat.find_min' hsome abandons).trans_lt hk⟩
  exact not_or.mpr ⟨not_promotes_of_alone alone i, Nat.find_min hsome hi⟩

/-- Timeouts two hours apart keep a row without other evidence in `PROBATION`. -/
theorem probation_of_spaced (probation : o.row.lifecycleState = .probation)
    (logged : o.store.Logged) (spaced : o.SpacedApart) (timeouts : ∀ i, (o.runs i).Timeout)
    (n : ℕ) : o.lifecycleAfter n = some .probation := by
  have habandons : ∀ k, ¬ o.Abandons k := by
    rintro k ⟨hlow, -⟩
    have hweight := outageWeight_le_two spaced timeouts k
    have hbeta : o.beta k ≤ 1 + o.outageWeight k := by
      rw [beta_of_alone alone]
      exact min_le_left _ _
    rw [alpha_of_alone alone] at hlow
    linarith
  have lasts : o.Lasts .probation 0 n :=
    ⟨Nat.zero_le n, fun k _ _ => not_or.mpr ⟨not_promotes_of_alone alone k, habandons k⟩⟩
  obtain ⟨row, hrow, hprobation⟩ := lasts.outageRow ⟨o.row, o.outageRow_zero, probation⟩ logged
  rw [lifecycleAfter, hrow.found, Option.map_some]
  exact congrArg some hprobation

end Alone

end SustainedOutage

/-- A node that was revived before its first test. -/
def revivedFleet : List (Write ℝ) := [.ingestOne 0 sampleProxy "node" 1, .reviveNode 0 "node"]

/-- The port of the node never answers, and the jitter tends to one delay. -/
def silentRuns (draw : ℕ) (k : ℕ) : FailedRun where
  runId := String.ofList (List.replicate k 'r')
  stage := .dnsTcp
  failureClass := .tcpTimeout
  leaseUntil := hours (2 * k) + minutes 5
  draw := draw

noncomputable def silentOutage (draw : ℕ) : SustainedOutage ℝ where
  cadence := defaultCadence
  store := Store.empty.writes revivedFleet
  id := "node"
  row := ((Store.empty.writes revivedFleet).findNode "node").get rfl
  start := 0
  runs := silentRuns draw
  found := (Option.some_get _).symm
  prior := .inr rfl
  past := fun e he => absurd he List.not_mem_nil
  failed := fun _ => rfl
  fresh := fun _ e he => absurd he List.not_mem_nil
  unseen := fun _ => (Option.some_ne_none _).symm
  distinct := by
    intro i j hij
    have hlists := String.ofList_injective hij
    simpa using congrArg List.length hlists

theorem two_hours_le_ceiling {streak : ℕ} (h : 2 ≤ streak) :
    7200 ≤ delayCeiling streak false false .tcpTimeout := by
  obtain ⟨n, rfl⟩ := Nat.exists_eq_add_of_le' h
  have hshift : 2 ^ 2 ≤ 2 ^ min (min (n + 2 + 0) u32Max) 20 := by
    apply Nat.pow_le_pow_right (by norm_num)
    unfold u32Max
    omega
  unfold delayCeiling
  simp only [Bool.false_eq_true, if_false, reduceCtorEq]
  omega

theorem silentOutage_spaced : (silentOutage 7200).SpacedApart := by
  intro k hk
  have hstreak : 2 ≤ min (asU32 (silentOutage 7200).row.failureStreak + k + 1) u32Max := by
    unfold u32Max
    omega
  have hdelay := fullJitterDelay_of_le (two_hours_le_ceiling hstreak)
  exact (congrArg ((silentOutage 7200).dueTime k + ·) hdelay).symm.le

theorem silentOutage_alone (draw : ℕ) :
    ∀ e ∈ (silentOutage draw).store.events, e.proxyId ≠ (silentOutage draw).id :=
  fun _ he => absurd he List.not_mem_nil

theorem silentOutage_probation (n : ℕ) :
    (silentOutage 7200).lifecycleAfter n = some .probation := by
  have logged : (silentOutage 7200).store.Logged :=
    Store.Logged.writes (s := Store.empty) rfl revivedFleet
  refine SustainedOutage.probation_of_spaced (silentOutage_alone 7200) rfl logged
    silentOutage_spaced (fun i => ⟨?_, rfl⟩) n
  show ((1 : ℚ) : ℝ) ≤ 1
  norm_num

section AtOnce

/-- Without delays all runs take place at once. -/
theorem silentOutage_dueTime (k : ℕ) : (silentOutage 0).dueTime k = 0 := by
  induction k with
  | zero => rfl
  | succ k ih =>
    have hdelay : ∀ streak, fullJitterDelay streak false false .tcpTimeout 0 = 0 := by
      intro streak
      rw [fullJitterDelay, Nat.zero_mod]
      rfl
    exact (congrArg₂ (· + ·) ih (hdelay _)).trans (add_zero 0)

theorem silentOutage_weight {k : ℕ} (hk : k < 512) : (silentOutage 0).outageWeight k = k + 1 := by
  have hcounted : (silentOutage 0).countedRuns k = (List.range (k + 1)).reverse := by
    unfold SustainedOutage.countedRuns
    rw [List.take_of_length_le (by simp [maxEvidenceEventsPerNode]; omega)]
    apply List.filter_eq_self.mpr
    intro i _
    rw [silentOutage_dueTime, silentOutage_dueTime]
    decide
  have hone : ∀ i ∈ (List.range (k + 1)).reverse, (silentOutage 0).failureWeight k i = 1 := by
    intro i _
    unfold SustainedOutage.failureWeight
    rw [silentOutage_dueTime, silentOutage_dueTime]
    have hbeta : (delta (F := ℝ) ((silentOutage 0).runs i).stage
        ((silentOutage 0).runs i).failureClass false).beta = 1 := by
      show ((1 : ℚ) : ℝ) = 1
      norm_num
    rw [hbeta, sub_self, RealEvidence.decay_of_nonpos zero_le_one (le_refl _)]
  unfold SustainedOutage.outageWeight
  rw [hcounted, List.map_congr_left hone]
  simp

end AtOnce

end ProxyFleet
