import ProxyFleet.ClaimCorrectness
import ProxyFleet.ObservedRuns
import Mathlib.Algebra.Order.BigOperators.Group.List

/-!
# Starvation of a queue

The credits of the queues are accrued and consumed, and no selection reads them. So while
all queues are full every tick takes the same quotas, and what rounding takes from a
queue in one tick it takes in every tick.
-/
namespace ProxyFleet

open SharedCapacity

variable {F : Type}

/-- A tick of the scheduler, or any other write between two ticks. -/
inductive SchedulerStep (F : Type) where
  | tick (tick : ClaimTick F)
  | write (w : Write F)

/-- The ticks so far and what each queue was served by them. -/
structure Tally where
  ticks : ℕ := 0
  claims : LifecycleState → ℕ := fun _ => 0

variable [F64 F]

namespace SchedulerStep

def apply (capacity : ℕ) (s : Store F) : SchedulerStep F → Store F
  | .tick t => (s.claimDue capacity t).1
  | .write w => s.write w

/-- All four queues hold at least `capacity` eligible nodes when a tick comes. -/
def Crowded (capacity : ℕ) (s : Store F) : SchedulerStep F → Prop
  | .tick t => ∀ state ∈ queueStates, capacity ≤ s.eligibleCount state t.now
  | .write _ => True

end SchedulerStep

def Tally.note (capacity : ℕ) (tally : Tally) (s : Store F) : SchedulerStep F → Tally
  | .tick tick =>
    { ticks := tally.ticks + 1
      claims := fun state => tally.claims state +
        (s.claimDue capacity tick).2.countP fun job => job.lifecycleState = state }
  | .write _ => tally

/-- The tally of a run. -/
abbrev tallyOf (capacity : ℕ) (s : Store F) (steps : List (SchedulerStep F)) : Tally :=
  ObservedRuns.notes (SchedulerStep.apply capacity) (Tally.note capacity) {} s steps

/-- In a run of crowded ticks each queue is served its percentage of the total capacity, up to
a constant. -/
def QuotaHonoured (F : Type) [F64 F] (capacity : ℕ) : Prop :=
  ∃ slack : ℕ, ∀ (s : Store F), s.WellKeyed → ∀ steps : List (SchedulerStep F),
    ObservedRuns.Admitted (SchedulerStep.apply capacity) (SchedulerStep.Crowded capacity) s steps →
      ∀ state ∈ queueStates,
        QueueQuota.percent state * (capacity * (tallyOf capacity s steps).ticks) ≤
          100 * ((tallyOf capacity s steps).claims state + slack)

section Crowded

variable {s : Store F} {capacity : ℕ}

omit [F64 F] in
/-- The quotas use the capacity up when no queue runs out. -/
theorem servedByTick_crowded {now : Time}
    (crowded : ∀ state ∈ queueStates, capacity ≤ s.eligibleCount state now) :
    ∀ state ∈ queueStates, (servedByTick s capacity now).of state =
      (QueueQuota.forCapacity capacity).byState state := by
  have hquotas := QueueQuota.sum_byState capacity
  have hroom : (Served.none : Served LifecycleState).total +
      (queueStates.map (QueueQuota.forCapacity capacity).byState).sum ≤ capacity := by
    rw [hquotas]
    exact (Nat.zero_add capacity).le
  have hmin : ∀ state ∈ queueStates, min ((QueueQuota.forCapacity capacity).byState state)
      (s.eligibleCount state now) = (QueueQuota.forCapacity capacity).byState state := by
    intro state hstate
    have hmem : (QueueQuota.forCapacity capacity).byState state ∈
        queueStates.map (QueueQuota.forCapacity capacity).byState := List.mem_map_of_mem hstate
    have hle : (QueueQuota.forCapacity capacity).byState state ≤ capacity :=
      (List.le_sum_of_mem hmem).trans hquotas.le
    exact Nat.min_eq_left (hle.trans (crowded state hstate))
  obtain ⟨hquota, htotal⟩ := @pass_quota LifecycleState _ capacity
    (fun state => s.eligibleCount state now) Served.none (QueueQuota.forCapacity capacity).byState
    queueStates (by decide) (fun _ _ => rfl) hroom
  rw [List.map_congr_left hmin, hquotas] at htotal
  intro state hstate
  rw [servedByTick, pass_full (htotal.trans (Nat.zero_add capacity)), hquota state hstate,
    hmin state hstate]

/-- A crowded tick serves each queue its quota. -/
theorem claims_of_crowded (keyed : s.WellKeyed) (positive : 1 ≤ capacity) {tick : ClaimTick F}
    (crowded : ∀ state ∈ queueStates, capacity ≤ s.eligibleCount state tick.now)
    {state : LifecycleState} (hstate : state ∈ queueStates) :
    (s.claimDue capacity tick).2.countP (fun job => job.lifecycleState = state) =
      (QueueQuota.forCapacity capacity).byState state := by
  have hrefines := claimPasses_refines keyed capacity tick
  rw [(s.claimDue_passes capacity tick).1, Nat.max_eq_left positive, ← hrefines.of state hstate]
  exact servedByTick_crowded crowded state hstate

/-- A run of crowded ticks serves each queue its quota in every one of them. -/
theorem tally_of_crowded (keyed : s.WellKeyed) (positive : 1 ≤ capacity)
    {steps : List (SchedulerStep F)}
    (crowded : ObservedRuns.Admitted (SchedulerStep.apply capacity)
      (SchedulerStep.Crowded capacity) s steps) {state : LifecycleState}
    (hstate : state ∈ queueStates) : (tallyOf capacity s steps).claims state =
      (tallyOf capacity s steps).ticks * (QueueQuota.forCapacity capacity).byState state := by
  have hstep : ∀ (s : Store F) (tally : Tally) a, a.Crowded capacity s →
      s.WellKeyed ∧ tally.claims state =
        tally.ticks * (QueueQuota.forCapacity capacity).byState state →
      (a.apply capacity s).WellKeyed ∧ (tally.note capacity s a).claims state =
        (tally.note capacity s a).ticks * (QueueQuota.forCapacity capacity).byState state := by
    rintro s tally a hcrowded ⟨hk, htally⟩
    cases a with
    | tick t =>
      obtain ⟨ws, hws⟩ := claimDue_writes t hk capacity
      refine ⟨?_, ?_⟩
      · rw [SchedulerStep.apply, hws]
        exact hk.writes ws
      · show tally.claims state + _ = (tally.ticks + 1) * _
        rw [claims_of_crowded hk positive hcrowded hstate, htally, Nat.succ_mul]
    | write w => exact ⟨hk.write w, htally⟩
  have hstart : s.WellKeyed ∧ ({} : Tally).claims state =
      ({} : Tally).ticks * (QueueQuota.forCapacity capacity).byState state :=
    ⟨keyed, (Nat.zero_mul _).symm⟩
  exact (ObservedRuns.notes_invariant hstep hstart crowded).2

/-- A tick takes no more from a queue than the capacity. -/
theorem eligibleCount_tick (keyed : s.WellKeyed) (positive : 1 ≤ capacity) (tick : ClaimTick F)
    {state : LifecycleState} (hstate : state ∈ queueStates) :
    s.eligibleCount state tick.now ≤
      (s.claimDue capacity tick).1.eligibleCount state tick.now + capacity := by
  have hrefines := claimPasses_refines keyed capacity tick
  have hleft := hrefines.claiming.left keyed hstate
  have hbounded := (servedByTick_spec s capacity tick.now).1
  rw [hrefines.total] at hbounded
  obtain ⟨-, debt, hstore⟩ := s.claimDue_passes capacity tick
  rw [Nat.max_eq_left positive] at hstore
  rw [hstore]
  generalize s.claimPasses capacity tick = result at hleft hbounded ⊢
  have hcount : Store.eligibleCount { result.1.1 with quotaDebt := debt } state tick.now =
      result.1.1.eligibleCount state tick.now := rfl
  have hjobs : (result.1.2.countP fun job => job.lifecycleState = state) ≤ result.1.2.length :=
    List.countP_le_length
  omega

end Crowded

section Crowd

/-- The state of the `j`-th row of a crowd. -/
def crowdState (j : ℕ) : LifecycleState :=
  match j % 4 with
  | 0 => .candidate
  | 1 => .probation
  | 2 => .dormant
  | _ => .active

/-- A row that is due and free, whose keys are of the length `j`. -/
def crowdRow (F : Type) [F64 F] (j : ℕ) : Node F where
  id := String.ofList (List.replicate j 'n')
  configHash := String.ofList (List.replicate j 'n')
  rawConfig := []
  sourceSubs := []
  status := crowdState j
  lifecycleState := crowdState j
  healthAlpha := F64.ofRat 1
  healthBeta := F64.ofRat 1
  healthScore := F64.ofRat (1 / 2)
  createdAt := 0

/-- A store with as many eligible rows in each queue. -/
def crowd (F : Type) [F64 F] (size : ℕ) : Store F where
  nodes := (List.range (4 * size)).map (crowdRow F)

/-- A tick at the time zero. -/
def crowdTick (F : Type) [F64 F] : ClaimTick F where
  now := 0
  lease := minutes 1
  activeDownloadInterval := minutes 5
  pressure := F64.ofRat 0

theorem wellKeyed_crowd (size : ℕ) : (crowd F size).WellKeyed := by
  have hinj : Function.Injective fun j => String.ofList (List.replicate j 'n') := by
    intro i j h
    have hlist := congrArg String.toList h
    simpa using congrArg List.length hlist
  have hnodup : ((List.range (4 * size)).map fun j => String.ofList (List.replicate j 'n')).Nodup :=
    List.Nodup.map hinj List.nodup_range
  constructor
  · rw [crowd, List.map_map]
    exact hnodup
  · rw [crowd, List.map_map]
    exact hnodup

theorem eligible_crowdRow (j : ℕ) (state : LifecycleState) (now : Time) :
    (crowdRow F j).eligible state now = decide (crowdState j = state) := by
  have hwait : crowdState j ≠ .waitingForPort := by
    unfold crowdState
    split <;> decide
  simp [Node.eligible, Node.eligibleDirectly, Node.eligibleWaiting, crowdRow, Node.due,
    Node.leaseFree, hwait]

theorem eligibleCount_crowd (size : ℕ) {state : LifecycleState} (hstate : state ∈ queueStates)
    (now : Time) : (crowd F size).eligibleCount state now = size := by
  have hone : ∀ size, [4 * size, 4 * size + 1, 4 * size + 2, 4 * size + 3].countP
      (fun j => decide (crowdState j = state)) = 1 := by
    intro size
    have hmod : ∀ k < 4, crowdState (4 * size + k) = crowdState k := by
      intro k _
      unfold crowdState
      rw [Nat.mul_add_mod]
    have hzero := hmod 0 (by decide)
    rw [Nat.add_zero] at hzero
    simp only [List.countP_cons, List.countP_nil, hzero, hmod 1 (by decide), hmod 2 (by decide),
      hmod 3 (by decide)]
    revert state
    decide
  rw [Store.eligibleCount, crowd, List.countP_map]
  have hcomp : (fun row : Node F => row.eligible state now) ∘ crowdRow F =
      fun j => decide (crowdState j = state) := funext fun j => eligible_crowdRow j state now
  rw [hcomp]
  induction size with
  | zero => rfl
  | succ size ih =>
    have hrange : List.range (4 * (size + 1)) =
        List.range (4 * size) ++ [4 * size, 4 * size + 1, 4 * size + 2, 4 * size + 3] := by
      rw [Nat.mul_succ, List.range_succ, List.range_succ, List.range_succ, List.range_succ]
      simp
    rw [hrange, List.countP_append, ih, hone]

/-- Ticks in a row, with as many rows for each of them, are crowded. -/
theorem crowded_ticks {capacity : ℕ} (positive : 1 ≤ capacity) {s : Store F} (keyed : s.WellKeyed)
    {n : ℕ} (rows : ∀ state ∈ queueStates, n * capacity ≤ s.eligibleCount state (crowdTick F).now) :
    ObservedRuns.Admitted (SchedulerStep.apply capacity) (SchedulerStep.Crowded capacity) s
      (List.replicate n (.tick (crowdTick F))) := by
  induction n generalizing s with
  | zero => exact trivial
  | succ n ih =>
    refine ⟨fun state hstate => ?_, ih ?_ fun state hstate => ?_⟩
    · have hrows := rows state hstate
      rw [Nat.succ_mul] at hrows
      omega
    · obtain ⟨ws, hws⟩ := claimDue_writes (crowdTick F) keyed capacity
      rw [SchedulerStep.apply, hws]
      exact keyed.writes ws
    · have hrows := rows state hstate
      have hleft := eligibleCount_tick keyed positive (crowdTick F) hstate
      rw [Nat.succ_mul] at hrows
      show n * capacity ≤ (s.claimDue capacity (crowdTick F)).1.eligibleCount state _
      omega

theorem ticks_replicate (capacity : ℕ) (s : Store F) (n : ℕ) :
    (tallyOf capacity s (List.replicate n (.tick (crowdTick F)))).ticks = n := by
  have hnotes : ∀ (s : Store F) (tally : Tally),
      (ObservedRuns.notes (SchedulerStep.apply capacity) (Tally.note capacity) tally s
        (List.replicate n (.tick (crowdTick F)))).ticks = tally.ticks + n := by
    induction n with
    | zero => exact fun _ _ => rfl
    | succ n ih =>
      intro s tally
      refine (ih _ _).trans ?_
      show tally.ticks + 1 + n = tally.ticks + (n + 1)
      omega
  rw [tallyOf, hnotes, Nat.zero_add]

/-- A quota below its percentage falls behind without a bound. -/
theorem percent_le_of_honoured {capacity : ℕ} (positive : 1 ≤ capacity)
    (honoured : QuotaHonoured F capacity) {state : LifecycleState} (hstate : state ∈ queueStates) :
    QueueQuota.percent state * capacity ≤
      100 * (QueueQuota.forCapacity capacity).byState state := by
  obtain ⟨slack, hslack⟩ := honoured
  by_contra hless
  let ticks := 100 * slack + 1
  have keyed := wellKeyed_crowd (F := F) (ticks * capacity)
  have hrows : ∀ state ∈ queueStates,
      ticks * capacity ≤ (crowd F (ticks * capacity)).eligibleCount state (crowdTick F).now :=
    fun state hstate => (eligibleCount_crowd _ hstate _).ge
  have crowded := crowded_ticks positive keyed hrows
  have hlaw := hslack _ keyed _ crowded state hstate
  rw [tally_of_crowded keyed positive crowded hstate, ticks_replicate] at hlaw
  have hbehind : (100 * (QueueQuota.forCapacity capacity).byState state + 1) * ticks ≤
      QueueQuota.percent state * capacity * ticks := Nat.mul_le_mul_right ticks (by omega)
  have hleft : QueueQuota.percent state * (capacity * ticks) =
      QueueQuota.percent state * capacity * ticks := (Nat.mul_assoc _ _ _).symm
  have hright : 100 * (ticks * (QueueQuota.forCapacity capacity).byState state + slack) =
      100 * (QueueQuota.forCapacity capacity).byState state * ticks + 100 * slack := by
    rw [Nat.mul_add, Nat.mul_comm ticks, Nat.mul_assoc]
  rw [Nat.succ_mul] at hbehind
  omega

end Crowd

/-- Each quota is its percentage of a multiple of ten. -/
theorem QueueQuota.byState_of_ten_dvd {capacity : ℕ} (ten : 10 ∣ capacity) {state : LifecycleState}
    (hstate : state ∈ queueStates) :
    100 * (forCapacity capacity).byState state = percent state * capacity := by
  obtain ⟨k, rfl⟩ := ten
  have hpercent : ∃ m, percent state = 10 * m := by
    simp only [queueStates, queueOrder, List.map_cons, List.map_nil, List.mem_cons,
      List.not_mem_nil, or_false] at hstate
    rcases hstate with rfl | rfl | rfl | rfl
    · exact ⟨4, rfl⟩
    · exact ⟨3, rfl⟩
    · exact ⟨2, rfl⟩
    · exact ⟨1, rfl⟩
  obtain ⟨m, hm⟩ := hpercent
  have hexact : 10 * k * percent state = 100 * (k * m) := by
    rw [hm]
    ring
  have hquota : (forCapacity (10 * k)).byState state = k * m := by
    obtain hfloor | hceil := byState_forCapacity (10 * k) hstate
    · rw [hfloor, hexact, Nat.mul_div_cancel_left _ (by decide)]
    · rw [hceil, hexact, Nat.ceilDiv_eq_add_pred_div]
      omega
  rw [hquota, ← hexact, Nat.mul_comm]

/-- Where the percentages are honoured, they leave no remainder. -/
theorem ten_dvd_of_honoured {capacity : ℕ} (positive : 1 ≤ capacity)
    (honoured : QuotaHonoured F capacity) : 10 ∣ capacity := by
  have hsum := QueueQuota.sum_forCapacity capacity
  have hcandidate : 40 * capacity ≤ 100 * (QueueQuota.forCapacity capacity).new :=
    percent_le_of_honoured positive honoured (by decide : LifecycleState.candidate ∈ queueStates)
  have hprobation : 30 * capacity ≤ 100 * (QueueQuota.forCapacity capacity).successfulProbation :=
    percent_le_of_honoured positive honoured (by decide : LifecycleState.probation ∈ queueStates)
  have hdormant : 20 * capacity ≤ 100 * (QueueQuota.forCapacity capacity).recoverableDormant :=
    percent_le_of_honoured positive honoured (by decide : LifecycleState.dormant ∈ queueStates)
  have hactive : 10 * capacity ≤ 100 * (QueueQuota.forCapacity capacity).exploration :=
    percent_le_of_honoured positive honoured (by decide : LifecycleState.active ∈ queueStates)
  have hexact : 100 * (QueueQuota.forCapacity capacity).exploration = 10 * capacity := by omega
  exact ⟨(QueueQuota.forCapacity capacity).exploration, by omega⟩

/-- The quotas are honoured across ticks exactly at the capacities that they divide evenly. -/
theorem quota_honoured_iff {capacity : ℕ} (positive : 1 ≤ capacity) :
    QuotaHonoured F capacity ↔ 10 ∣ capacity := by
  constructor
  · exact ten_dvd_of_honoured positive
  · refine fun ten => ⟨0, fun s keyed steps crowded state hstate => ?_⟩
    rw [tally_of_crowded keyed positive crowded hstate, Nat.add_zero]
    generalize (tallyOf capacity s steps).ticks = ticks
    calc QueueQuota.percent state * (capacity * ticks)
        = QueueQuota.percent state * capacity * ticks := (Nat.mul_assoc _ _ _).symm
      _ = 100 * (QueueQuota.forCapacity capacity).byState state * ticks := by
          rw [QueueQuota.byState_of_ten_dvd ten hstate]
      _ ≤ 100 * (ticks * (QueueQuota.forCapacity capacity).byState state) := by
          rw [Nat.mul_assoc, Nat.mul_comm ticks]

theorem quota_honoured_iff_ten : QuotaHonoured ℚ 10 :=
  (quota_honoured_iff (by decide)).mpr (by decide)

/-- At capacity 12 every tick serves two `DORMANT` nodes of the 2.4 that are due. -/
theorem quota_not_honoured : ¬ ∀ capacity : ℕ, 1 ≤ capacity → QuotaHonoured ℚ capacity := by
  intro h
  have hten : 10 ∣ 12 := ten_dvd_of_honoured (by decide) (h 12 (by decide))
  revert hten
  decide

end ProxyFleet
