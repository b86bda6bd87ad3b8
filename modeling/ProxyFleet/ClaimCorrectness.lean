import ProxyFleet.ClaimScheduling
import ProxyFleet.LargestRemainder
import ProxyFleet.SharedCapacity
import Mathlib.Algebra.Order.Floor.Div
import Mathlib.GroupTheory.GroupAction.Ring

/-!
# Correctness of a tick

The quotas are shares rounded by largest remainders, and the two passes of a tick are
passes of queues that share a capacity: a queue supplies the rows that are eligible for
it. What was claimed is read off the jobs.
-/
namespace ProxyFleet

open LargestRemainder SharedCapacity

variable {F : Type}

namespace QueueQuota

/-- The configured shares. -/
def percent : LifecycleState → ℕ
  | .candidate => 40
  | .probation => 30
  | .dormant => 20
  | .active => 10
  | _ => 0

/-- The shares before the units that are left go to the largest remainders. -/
def unrounded (capacity : ℕ) : List Share := [
  ⟨capacity * 40 / 100, capacity * 40 % 100, 0⟩, ⟨capacity * 30 / 100, capacity * 30 % 100, 1⟩,
  ⟨capacity * 20 / 100, capacity * 20 % 100, 2⟩, ⟨capacity * 10 / 100, capacity * 10 % 100, 3⟩]

def Share.bump (share : Share) : Share := { share with whole := share.whole + 1 }

def rounded (capacity : ℕ) : List Share :=
  bumpFirst Share.bump (capacity - ((unrounded capacity).map (·.whole)).sum)
    ((unrounded capacity).insertionSort Share.LargestFirst)

/-- The share with the given priority. -/
def lookup (shares : List Share) (priority : ℕ) : ℕ :=
  ((shares.find? fun share => share.priority = priority).map (·.whole)).getD 0

theorem forCapacity_eq (capacity : ℕ) : forCapacity capacity =
    ⟨lookup (rounded capacity) 0, lookup (rounded capacity) 1, lookup (rounded capacity) 2,
      lookup (rounded capacity) 3⟩ := rfl

theorem largestFirst_sorted (shares : List Share) :
    (shares.insertionSort Share.LargestFirst).Pairwise fun a b => b.remainder ≤ a.remainder := by
  have total : Std.Total Share.LargestFirst := by
    constructor
    intro a b
    unfold Share.LargestFirst
    omega
  have transitive : IsTrans Share Share.LargestFirst := by
    constructor
    intro a b c
    unfold Share.LargestFirst
    omega
  refine (List.pairwise_insertionSort Share.LargestFirst shares).imp fun {a b} h => ?_
  unfold Share.LargestFirst at h
  omega

variable (capacity : ℕ)

theorem perm_unrounded : ((unrounded capacity).insertionSort Share.LargestFirst).Perm
    (unrounded capacity) := List.perm_insertionSort _ _

/-- The sorted shares split the capacity into whole units and remainders. -/
theorem split_unrounded :
    (((unrounded capacity).insertionSort Share.LargestFirst).map fun share =>
      100 * share.whole + share.remainder).sum = 100 * capacity := by
  rw [((perm_unrounded capacity).map _).sum_eq]
  simp only [unrounded, List.map_cons, List.map_nil, List.sum_cons, List.sum_nil, Nat.div_add_mod]
  omega

theorem remainder_lt {share : Share}
    (h : share ∈ (unrounded capacity).insertionSort Share.LargestFirst) :
    share.remainder < 100 := by
  rw [(perm_unrounded capacity).mem_iff] at h
  simp only [unrounded, List.mem_cons, List.not_mem_nil, or_false] at h
  rcases h with rfl | rfl | rfl | rfl
  · exact Nat.mod_lt _ (by decide)
  · exact Nat.mod_lt _ (by decide)
  · exact Nat.mod_lt _ (by decide)
  · exact Nat.mod_lt _ (by decide)

theorem rounded_eq : rounded capacity = bumpFirst Share.bump
    (capacity - (((unrounded capacity).insertionSort Share.LargestFirst).map (·.whole)).sum)
      ((unrounded capacity).insertionSort Share.LargestFirst) := by
  rw [rounded, ((perm_unrounded capacity).map _).sum_eq]

theorem priorities_rounded : ((rounded capacity).map (·.priority)).Perm [0, 1, 2, 3] := by
  have hkept : (rounded capacity).map (·.priority) =
      ((unrounded capacity).insertionSort Share.LargestFirst).map (·.priority) := by
    apply map_bumpFirst
    intro share
    rfl
  rw [hkept]
  exact (perm_unrounded capacity).map _

theorem distinct_rounded : ((rounded capacity).map (·.priority)).Nodup :=
  (priorities_rounded capacity).nodup_iff.mpr (by decide)

theorem lookup_of_mem {share : Share} (h : share ∈ rounded capacity) :
    lookup (rounded capacity) share.priority = share.whole := by
  have hfound : (rounded capacity).find? (fun other => other.priority = share.priority) =
      some share := RowUpdates.find?_key_eq (distinct_rounded capacity) h
  rw [lookup, hfound]
  rfl

/-- The quotas add up to the capacity. -/
theorem sum_forCapacity : (forCapacity capacity).new + (forCapacity capacity).successfulProbation +
    (forCapacity capacity).recoverableDormant + (forCapacity capacity).exploration = capacity := by
  have hlookup : ((rounded capacity).map (·.priority)).map (lookup (rounded capacity)) =
      (rounded capacity).map (·.whole) := by
    rw [List.map_map]
    exact List.map_congr_left fun share h => lookup_of_mem capacity h
  have hsum : ((rounded capacity).map (·.whole)).sum = capacity := by
    rw [rounded_eq]
    exact sum_rounded (by decide) (fun _ => rfl) (largestFirst_sorted _)
      (fun share h => remainder_lt capacity h) (split_unrounded capacity)
  rw [← hlookup, ((priorities_rounded capacity).map _).sum_eq] at hsum
  rw [forCapacity_eq]
  simpa [Nat.add_assoc] using hsum

theorem sum_byState : (queueStates.map (forCapacity capacity).byState).sum = capacity := by
  simpa [queueStates, queueOrder, byState, Nat.add_assoc] using sum_forCapacity capacity

/-- A quota is the quotient, or one more where there is a remainder. -/
theorem lookup_rounded {share : Share} (h : share ∈ unrounded capacity) :
    lookup (rounded capacity) share.priority = share.whole ∨
      0 < share.remainder ∧ lookup (rounded capacity) share.priority = share.whole + 1 := by
  have hpriority : share.priority ∈ (rounded capacity).map (·.priority) := by
    rw [(priorities_rounded capacity).mem_iff]
    simp only [unrounded, List.mem_cons, List.not_mem_nil, or_false] at h
    rcases h with rfl | rfl | rfl | rfl <;> simp
  obtain ⟨other, hother, heq⟩ := List.mem_map.mp hpriority
  have hdistinct : ((unrounded capacity).map (·.priority)).Nodup := by
    show [0, 1, 2, 3].Nodup
    decide
  have hsame : ∀ old ∈ (unrounded capacity).insertionSort Share.LargestFirst,
      old.priority = share.priority → old = share := fun old hold heq =>
    RowUpdates.eq_of_key_eq hdistinct ((perm_unrounded capacity).mem_iff.mp hold) h heq
  rw [← heq, lookup_of_mem capacity hother]
  rw [rounded_eq] at hother
  obtain hkept | ⟨old, hold, hpositive, rfl⟩ := share_rounded (by decide) (largestFirst_sorted _)
    (fun share h => remainder_lt capacity h) (split_unrounded capacity) hother
  · rw [hsame other hkept heq]
    exact .inl rfl
  · obtain rfl := hsame old hold heq
    exact .inr ⟨hpositive, rfl⟩

/-- Each quota is the floor or the ceiling of its percentage. -/
theorem byState_forCapacity {state : LifecycleState} (h : state ∈ queueStates) :
    (forCapacity capacity).byState state = capacity * percent state / 100 ∨
      (forCapacity capacity).byState state = capacity * percent state ⌈/⌉ 100 := by
  have hshare : ∃ priority, (⟨capacity * percent state / 100, capacity * percent state % 100,
      priority⟩ : Share) ∈ unrounded capacity ∧
      (forCapacity capacity).byState state = lookup (rounded capacity) priority := by
    simp only [queueStates, queueOrder, List.map_cons, List.map_nil, List.mem_cons,
      List.not_mem_nil, or_false] at h
    rcases h with rfl | rfl | rfl | rfl
    · exact ⟨0, by simp [unrounded, percent], rfl⟩
    · exact ⟨1, by simp [unrounded, percent], rfl⟩
    · exact ⟨2, by simp [unrounded, percent], rfl⟩
    · exact ⟨3, by simp [unrounded, percent], rfl⟩
  obtain ⟨priority, hmem, heq⟩ := hshare
  rw [heq, Nat.ceilDiv_eq_add_pred_div]
  refine (lookup_rounded capacity hmem).imp id ?_
  rintro ⟨hpositive, hmore⟩
  rw [hmore]
  dsimp only at hpositive ⊢
  omega

end QueueQuota

/-- The rows that a queue supplies. -/
def Store.eligibleCount (s : Store F) (state : LifecycleState) (now : Time) : ℕ :=
  s.nodes.countP fun row => row.eligible state now

/-- A row is eligible for one queue at most. -/
theorem Node.eligible_unique {row : Node F} {state other : LifecycleState} {now : Time}
    (hs : state ∈ queueStates) (ho : other ∈ queueStates) (h : row.eligible state now = true)
    (h' : row.eligible other now = true) : state = other := by
  have hwait : ∀ q ∈ queueStates, q ≠ .waitingForPort := by decide
  simp only [Node.eligible, Node.eligibleDirectly, Node.eligibleWaiting, Bool.or_eq_true,
    Bool.and_eq_true, decide_eq_true_eq] at h h'
  rcases h with ⟨⟨⟨hq, -⟩, -⟩, -⟩ | ⟨⟨⟨⟨hw, hq⟩, -⟩, -⟩, -⟩
  · rcases h' with ⟨⟨⟨hq', -⟩, -⟩, -⟩ | ⟨⟨⟨⟨hw', -⟩, -⟩, -⟩, -⟩
    · exact hq.symm.trans hq'
    · exact absurd (hq.symm.trans hw') (hwait state hs)
  · rcases h' with ⟨⟨⟨hq', -⟩, -⟩, -⟩ | ⟨⟨⟨⟨-, hq'⟩, -⟩, -⟩, -⟩
    · exact absurd (hq'.symm.trans hw) (hwait other ho)
    · exact Option.some.inj (hq.symm.trans hq')

theorem Node.leaseFree_of_eligible {row : Node F} {state : LifecycleState} {now : Time}
    (h : row.eligible state now = true) : row.leaseFree now = true := by
  simp only [Node.eligible, Node.eligibleDirectly, Node.eligibleWaiting, Bool.or_eq_true,
    Bool.and_eq_true] at h
  exact h.elim (·.2) (·.2)

section Claiming

variable {tick : ClaimTick F} {state : LifecycleState} {s : Store F}

/-- What a tick has done so far: the rows of its jobs are claimed, and the others are as before. -/
structure Claiming (tick : ClaimTick F) (s : Store F) (acc : Store F × List TestJob) : Prop where
  rows : acc.1.nodes = s.nodes.map fun row =>
    if row.id ∈ acc.2.map (·.id) then row.claimed (tick.now + tick.lease) else row
  rest : acc.1 = { s with nodes := acc.1.nodes }
  distinct : (acc.2.map (·.id)).Nodup
  jobs : ∀ job ∈ acc.2, job.lifecycleState ∈ queueStates ∧
    ∃ row ∈ s.nodes, row.id = job.id ∧ row.eligible job.lifecycleState tick.now = true

namespace Claiming

variable {acc : Store F × List TestJob}

theorem start (tick : ClaimTick F) (s : Store F) : Claiming tick s (s, []) := by
  refine ⟨?_, rfl, List.nodup_nil, fun job hj => nomatch hj⟩
  simp

/-- The ids of the table stay as they are. -/
theorem ids (h : Claiming tick s acc) : acc.1.nodes.map (·.id) = s.nodes.map (·.id) := by
  rw [h.rows, List.map_map]
  apply List.map_congr_left
  intro row _
  dsimp only [Function.comp]
  split <;> rfl

theorem hashes (h : Claiming tick s acc) :
    acc.1.nodes.map (·.configHash) = s.nodes.map (·.configHash) := by
  rw [h.rows, List.map_map]
  apply List.map_congr_left
  intro row _
  dsimp only [Function.comp]
  split <;> rfl

theorem keyed (h : Claiming tick s acc) (hk : s.WellKeyed) : acc.1.WellKeyed :=
  ⟨h.ids ▸ hk.ids, h.hashes ▸ hk.hashes⟩

/-- A row that is still eligible was not claimed. -/
theorem unclaimed (h : Claiming tick s acc) {row : Node F} (hr : row ∈ acc.1.nodes)
    (hstate : state ∈ queueStates) (he : row.eligible state tick.now = true) :
    row ∈ s.nodes ∧ row.id ∉ acc.2.map (·.id) := by
  rw [h.rows] at hr
  obtain ⟨old, hold, rfl⟩ := List.mem_map.mp hr
  by_cases hid : old.id ∈ acc.2.map (·.id)
  · rw [if_pos hid, Node.claimed_not_eligible _ _ hstate] at he
    cases he
  · rw [if_neg hid]
    exact ⟨hold, hid⟩

/-- What a queue has left is what it supplied, less its jobs. -/
theorem left (h : Claiming tick s acc) (hk : s.WellKeyed) (hstate : state ∈ queueStates) :
    acc.1.eligibleCount state tick.now + acc.2.countP (fun job => job.lifecycleState = state) =
      s.eligibleCount state tick.now := by
  have hrest : acc.1.eligibleCount state tick.now =
      (s.nodes.filter fun row => row.id ∉ acc.2.map (·.id)).countP
        fun row => row.eligible state tick.now := by
    rw [Store.eligibleCount, h.rows, List.countP_map, List.countP_filter]
    congr 1
    funext row
    by_cases hid : row.id ∈ acc.2.map (·.id)
    · simp only [Function.comp, if_pos hid, Node.claimed_not_eligible _ _ hstate,
        decide_eq_false (not_not_intro hid), Bool.and_false]
    · simp only [Function.comp, if_neg hid, decide_eq_true hid, Bool.and_true]
  have hjobs : (((s.nodes.filter fun row => row.id ∈ acc.2.map (·.id)).filter
      fun row => row.eligible state tick.now).map (·.id)).Perm
        ((acc.2.filter fun job => job.lifecycleState = state).map (·.id)) := by
    refine (List.perm_ext_iff_of_nodup ?_ ?_).mpr fun id => ?_
    · exact hk.ids.sublist ((List.filter_sublist.trans List.filter_sublist).map _)
    · exact h.distinct.sublist (List.filter_sublist.map _)
    · constructor
      · intro hid
        obtain ⟨row, hrow, rfl⟩ := List.mem_map.mp hid
        obtain ⟨hclaimed, he⟩ := List.mem_filter.mp hrow
        obtain ⟨hr, hmem⟩ := List.mem_filter.mp hclaimed
        obtain ⟨job, hj, hown⟩ := List.mem_map.mp (of_decide_eq_true hmem)
        obtain ⟨hqueue, row', hr', hid', he'⟩ := h.jobs job hj
        obtain rfl := RowUpdates.eq_of_key_eq hk.ids hr' hr (hid'.trans hown)
        exact List.mem_map.mpr ⟨job, List.mem_filter.mpr
          ⟨hj, decide_eq_true (Node.eligible_unique hqueue hstate he' he)⟩, hown⟩
      · intro hid
        obtain ⟨job, hjob, rfl⟩ := List.mem_map.mp hid
        obtain ⟨hj, hqueue⟩ := List.mem_filter.mp hjob
        obtain ⟨-, row, hr, hown, he⟩ := h.jobs job hj
        rw [of_decide_eq_true hqueue] at he
        have hmem : row.id ∈ acc.2.map (·.id) := hown ▸ List.mem_map_of_mem hj
        exact List.mem_map.mpr ⟨row, List.mem_filter.mpr
          ⟨List.mem_filter.mpr ⟨hr, decide_eq_true hmem⟩, he⟩, hown⟩
  have hlength := hjobs.length_eq
  rw [List.length_map, List.length_map, ← List.countP_eq_length_filter,
    ← List.countP_eq_length_filter] at hlength
  rw [hrest, ← hlength, Store.eligibleCount, Nat.add_comm]
  have hsplit := List.countP_eq_countP_filter_add s.nodes
    (fun row => row.eligible state tick.now) (fun row => decide (row.id ∈ acc.2.map (·.id)))
  rw [hsplit]
  simp only [decide_not]

end Claiming

end Claiming

section Claims

variable [F64 F] {tick : ClaimTick F} {state : LifecycleState} {reason : String} {s : Store F}
  {acc : Store F × List TestJob}

/-- The selection takes all that its limit allows. -/
theorem length_selectClaims (hstate : state ∈ queueStates) (limit : ℕ) :
    (s.selectClaims tick state limit).length = min limit (s.eligibleCount state tick.now) := by
  have hwait : state ≠ .waitingForPort := by
    rintro rfl
    simp [queueStates, queueOrder] at hstate
  have hcount : ∀ rows : List (Node F),
      (rows.filter fun row => row.eligibleDirectly state tick.now).length +
        (rows.filter fun row => row.eligibleWaiting state tick.now).length =
      rows.countP fun row => row.eligible state tick.now := by
    intro rows
    induction rows with
    | nil => rfl
    | cons row rows ih =>
      rw [List.filter_cons, List.filter_cons, List.countP_cons, ← ih]
      cases hd : row.eligibleDirectly state tick.now with
      | true =>
        have hw : row.eligibleWaiting state tick.now = false := by
          simp only [Node.eligibleDirectly, Bool.and_eq_true, decide_eq_true_eq] at hd
          simp [Node.eligibleWaiting, hd.1.1.1, hwait]
        simp only [Node.eligible, hd, hw, Bool.true_or, if_true, Bool.false_eq_true, if_false,
          List.length_cons]
        omega
      | false =>
        cases hw : row.eligibleWaiting state tick.now with
        | true =>
          simp only [Node.eligible, hd, hw, Bool.or_true, if_true, Bool.false_eq_true, if_false,
            List.length_cons]
          omega
        | false => simp [Node.eligible, hd, hw]
  rw [Store.selectClaims, List.length_take, List.length_insertionSort, List.length_append, hcount,
    Store.eligibleCount]

omit [F64 F] in
/-- One selected row is claimed. -/
theorem Claiming.claimSelected (h : Claiming tick s acc) (hk : s.WellKeyed)
    (hstate : state ∈ queueStates) {row : Node F} (hr : row ∈ acc.1.nodes)
    (he : row.eligible state tick.now = true) :
    Claiming tick s (Store.claimSelected tick state reason acc row) ∧
      (Store.claimSelected tick state reason acc row).2 = acc.2 ++ [row.job tick state reason] := by
  obtain ⟨hrow, hnew⟩ := h.unclaimed hr hstate he
  have hfree := Node.leaseFree_of_eligible he
  have hmatched : acc.1.claimMatches tick.now row.id = true :=
    List.any_eq_true.mpr ⟨row, hr, by simp [hfree]⟩
  have hjobs : (Store.claimSelected tick state reason acc row).2 =
      acc.2 ++ [row.job tick state reason] := by
    simp only [Store.claimSelected, hmatched, if_true]
  refine ⟨⟨?_, ?_, ?_, ?_⟩, hjobs⟩
  · have hids : (acc.2 ++ [row.job tick state reason]).map (·.id) =
        acc.2.map (·.id) ++ [row.id] := by
      rw [List.map_append]
      rfl
    rw [hjobs, hids]
    show RowUpdates.updateWhere _ _ acc.1.nodes = _
    rw [h.rows, RowUpdates.updateWhere, List.map_map]
    apply List.map_congr_left
    intro old hold
    by_cases hclaimed : old.id ∈ acc.2.map (·.id)
    · have hne : old.id ≠ row.id := fun heq => hnew (heq ▸ hclaimed)
      have hguard : (decide ((old.claimed (tick.now + tick.lease)).id = row.id)) = false :=
        decide_eq_false hne
      simp only [Function.comp, hguard, Bool.false_and, Bool.false_eq_true, if_false,
        List.mem_append, hclaimed, true_or, if_true]
    · by_cases hown : old.id = row.id
      · obtain rfl := RowUpdates.eq_of_key_eq hk.ids hold hrow hown
        simp only [Function.comp, if_neg hclaimed, decide_true, hfree, Bool.and_self, if_true,
          List.mem_append, List.mem_singleton, or_true]
      · simp [Function.comp, hclaimed, hown]
  · show acc.1.claimRow tick.now (tick.now + tick.lease) row.id = _
    rw [Store.claimRow, Store.updateNodes, h.rest]
    rfl
  · rw [hjobs, List.map_append, List.nodup_append]
    refine ⟨h.distinct, List.nodup_singleton _, ?_⟩
    intro id hid other hother heq
    rw [List.mem_singleton.mp hother] at heq
    have hown : id = row.id := heq
    exact hnew (hown ▸ hid)
  · intro job hj
    rw [hjobs] at hj
    rcases List.mem_append.mp hj with hj | hj
    · exact h.jobs job hj
    · obtain rfl := List.mem_singleton.mp hj
      exact ⟨hstate, row, hrow, rfl, he⟩

omit [F64 F] in
/-- The rows of one selection are claimed one after the other. -/
theorem Claiming.foldl_claimSelected (h : Claiming tick s acc) (hk : s.WellKeyed)
    (hstate : state ∈ queueStates) {rows : List (Node F)} (hn : (rows.map (·.id)).Nodup)
    (hrows : ∀ row ∈ rows, row ∈ acc.1.nodes ∧ row.eligible state tick.now = true) :
    Claiming tick s (rows.foldl (Store.claimSelected tick state reason) acc) ∧
      (rows.foldl (Store.claimSelected tick state reason) acc).2 =
        acc.2 ++ rows.map fun row => row.job tick state reason := by
  induction rows generalizing acc with
  | nil => exact ⟨h, (List.append_nil _).symm⟩
  | cons row rows ih =>
    obtain ⟨hr, he⟩ := hrows row List.mem_cons_self
    obtain ⟨hnext, hjobs⟩ : Claiming tick s (Store.claimSelected tick state reason acc row) ∧ _ :=
      h.claimSelected hk hstate hr he
    rw [List.map_cons, List.nodup_cons] at hn
    have hrest : ∀ other ∈ rows,
        other ∈ (Store.claimSelected tick state reason acc row).1.nodes ∧
          other.eligible state tick.now = true := by
      intro other hother
      obtain ⟨ho, heo⟩ := hrows other (List.mem_cons_of_mem _ hother)
      have hne : other.id ≠ row.id := fun heq => hn.1 (heq ▸ List.mem_map_of_mem hother)
      exact ⟨Store.mem_updateNodes.mpr ⟨other, ho, .inr ⟨by simp [hne], rfl⟩⟩, heo⟩
    obtain ⟨hall, hlist⟩ := ih hnext hn.2 hrest
    refine ⟨hall, ?_⟩
    rw [List.foldl_cons, hlist, hjobs, List.append_assoc]
    rfl

/-- A queue is served its portion. -/
theorem Claiming.appendClaims (h : Claiming tick s acc) (hk : s.WellKeyed)
    (hstate : state ∈ queueStates) (totalLimit queueLimit : ℕ) :
    Claiming tick s (Store.appendClaims tick totalLimit acc state queueLimit reason) ∧
      ∃ jobs : List TestJob,
        (Store.appendClaims tick totalLimit acc state queueLimit reason).2 = acc.2 ++ jobs ∧
        (∀ job ∈ jobs, job.lifecycleState = state) ∧
        jobs.length = min (min queueLimit (totalLimit - acc.2.length))
          (acc.1.eligibleCount state tick.now) := by
  unfold Store.appendClaims
  split
  · next hnone =>
    refine ⟨h, [], (List.append_nil _).symm, (fun job hj => nomatch hj), ?_⟩
    rw [List.length_nil]
    omega
  · obtain ⟨hnext, hjobs⟩ := @Claiming.foldl_claimSelected F tick state reason s acc h hk hstate _
      (selectClaims_nodup (h.keyed hk) hstate (min queueLimit (totalLimit - acc.2.length)))
      fun row hr => mem_selectClaims hr
    refine ⟨hnext, _, hjobs, ?_, ?_⟩
    · intro job hj
      obtain ⟨row, -, rfl⟩ := List.mem_map.mp hj
      rfl
    · rw [List.length_map, length_selectClaims hstate]

/-- The tick refines the sharing of a capacity. -/
structure Refines (tick : ClaimTick F) (s : Store F) (acc : Store F × List TestJob)
    (served : Served LifecycleState) : Prop where
  claiming : Claiming tick s acc
  of : ∀ state ∈ queueStates,
    served.of state = acc.2.countP fun job => job.lifecycleState = state
  total : served.total = acc.2.length

namespace Refines

variable {served : Served LifecycleState}

omit [F64 F] in
theorem start (tick : ClaimTick F) (s : Store F) : Refines tick s (s, []) Served.none :=
  ⟨Claiming.start tick s, fun _ _ => rfl, rfl⟩

theorem claimQueue {acc : (Store F × List TestJob) × QueueDebt F} (h : Refines tick s acc.1 served)
    (hk : s.WellKeyed) (capacity : ℕ) (limit : LifecycleState → ℕ → ℕ)
    {queue : LifecycleState × String} (hqueue : queue.1 ∈ queueStates) :
    Refines tick s (Store.claimQueue tick capacity limit acc queue).1
      (serve capacity (fun state => s.eligibleCount state tick.now) limit served queue.1) := by
  obtain ⟨hnext, jobs, hjobs, hown, hlength⟩ := @Claiming.appendClaims F _ tick queue.1 queue.2 s
    acc.1 h.claiming hk hqueue capacity (limit queue.1 acc.1.2.length)
  have hleft := h.claiming.left hk hqueue
  have hportion : portion capacity (fun state => s.eligibleCount state tick.now) limit served
      queue.1 = jobs.length := by
    rw [portion, hlength, h.total, h.of _ hqueue]
    omega
  refine ⟨hnext, fun state hstate => ?_, ?_⟩
  · show _ = (Store.appendClaims _ _ _ _ _ _).2.countP _
    rw [hjobs, List.countP_append, ← h.of state hstate]
    by_cases heq : state = queue.1
    · subst heq
      have hall : jobs.countP (fun job => decide (job.lifecycleState = queue.1)) = jobs.length :=
        List.countP_eq_length.mpr fun job hj => decide_eq_true (hown job hj)
      rw [serve_of_self, hportion, hall]
    · have hnone : jobs.countP (fun job => decide (job.lifecycleState = state)) = 0 :=
        List.countP_eq_zero.mpr fun job hj => by simp [hown job hj, Ne.symm heq]
      rw [serve_of_ne heq, hnone, Nat.add_zero]
  · show _ = (Store.appendClaims _ _ _ _ _ _).2.length
    rw [hjobs, List.length_append, ← h.total]
    exact congrArg (served.total + ·) hportion

theorem claimPass {acc : (Store F × List TestJob) × QueueDebt F} (h : Refines tick s acc.1 served)
    (hk : s.WellKeyed) (capacity : ℕ) (limit : LifecycleState → ℕ → ℕ) :
    Refines tick s (Store.claimPass tick capacity limit acc).1
      (pass capacity (fun state => s.eligibleCount state tick.now) limit queueStates served) := by
  have hqueues : ∀ (queues : List (LifecycleState × String)), (∀ q ∈ queues, q.1 ∈ queueStates) →
      ∀ {acc : (Store F × List TestJob) × QueueDebt F} {served : Served LifecycleState},
      Refines tick s acc.1 served →
      Refines tick s (queues.foldl (Store.claimQueue tick capacity limit) acc).1
        (pass capacity (fun state => s.eligibleCount state tick.now) limit (queues.map (·.1))
          served) := by
    intro queues
    induction queues with
    | nil => exact fun _ _ _ h => h
    | cons q queues ih =>
      intro hq acc served h
      exact ih (fun q hm => hq q (List.mem_cons_of_mem _ hm))
        (h.claimQueue hk capacity limit (hq q List.mem_cons_self))
  exact hqueues queueOrder (fun q hq => List.mem_map_of_mem hq) h

end Refines

/-- What a tick takes from the queues: the quotas first, then the overflow. -/
def servedByTick (s : Store F) (capacity : ℕ) (now : Time) : Served LifecycleState :=
  pass capacity (fun state => s.eligibleCount state now) (fun _ total => capacity - total)
    queueStates (pass capacity (fun state => s.eligibleCount state now)
      (fun state _ => (QueueQuota.forCapacity capacity).byState state) queueStates Served.none)

theorem claimPasses_refines (hk : s.WellKeyed) (capacity : ℕ) (tick : ClaimTick F) :
    Refines tick s (s.claimPasses capacity tick).1 (servedByTick s capacity tick.now) :=
  ((Refines.start tick s).claimPass hk capacity _).claimPass hk capacity _

/-- A tick stores the credits beside the result of its passes. -/
theorem Store.claimDue_passes (s : Store F) (capacity : ℕ) (tick : ClaimTick F) :
    (s.claimDue capacity tick).2 = (s.claimPasses (max capacity 1) tick).1.2 ∧
      ∃ debt, (s.claimDue capacity tick).1 =
        { (s.claimPasses (max capacity 1) tick).1.1 with quotaDebt := debt } := by
  unfold Store.claimDue
  generalize s.claimPasses (max capacity 1) tick = result
  obtain ⟨⟨claimed, jobs⟩, debt⟩ := result
  refine ⟨rfl, ?_⟩
  dsimp only
  split
  · exact ⟨claimed.quotaDebt, rfl⟩
  · exact ⟨some debt, rfl⟩

omit [F64 F] in
/-- What the tick takes from the queues keeps the capacity, honours the quotas, and leaves capacity
unused only with empty queues. -/
theorem servedByTick_spec (s : Store F) (capacity : ℕ) (now : Time) :
    (servedByTick s capacity now).total ≤ capacity ∧
    (∀ state ∈ queueStates,
      min ((QueueQuota.forCapacity capacity).byState state) (s.eligibleCount state now) ≤
        (servedByTick s capacity now).of state) ∧
    ((servedByTick s capacity now).total = capacity ∨ ∀ state ∈ queueStates,
      (servedByTick s capacity now).of state = s.eligibleCount state now) := by
  have hquotas := QueueQuota.sum_byState capacity
  have hstart : Sound capacity (fun state => s.eligibleCount state now) Served.none :=
    ⟨fun _ => Nat.zero_le _, Nat.zero_le _⟩
  have hfirst : Sound capacity (fun state => s.eligibleCount state now)
      (pass capacity (fun state => s.eligibleCount state now)
        (fun state _ => (QueueQuota.forCapacity capacity).byState state) queueStates Served.none) :=
    hstart.pass queueStates
  have hroom : (Served.none : Served LifecycleState).total +
      (queueStates.map (QueueQuota.forCapacity capacity).byState).sum ≤ capacity := by
    rw [hquotas]
    exact (Nat.zero_add capacity).le
  obtain ⟨hquota, -⟩ := @pass_quota LifecycleState _ capacity
    (fun state => s.eligibleCount state now) Served.none (QueueQuota.forCapacity capacity).byState
    queueStates (by decide) (fun _ _ => rfl) hroom
  refine ⟨(hfirst.pass queueStates).bounded, fun state hstate => ?_, pass_conserving hfirst⟩
  rw [← hquota state hstate]
  exact le_pass queueStates state

/-- What a tick promises: its jobs are distinct nodes and no more than the capacity, each was
eligible and holds a lease now, no other row changes, the quotas are honoured and no capacity
is left unused while a row is eligible. -/
structure ClaimsFairly (tick : ClaimTick F) (capacity : ℕ) (s t : Store F) (jobs : List TestJob) :
    Prop where
  distinct : (jobs.map (·.id)).Nodup
  bounded : jobs.length ≤ capacity
  eligible : ∀ job ∈ jobs, job.lifecycleState ∈ queueStates ∧ ∃ row ∈ s.nodes, row.id = job.id ∧
    row.eligible job.lifecycleState tick.now = true ∧ row.leaseFree tick.now = true
  leased : ∀ job ∈ jobs, ∃ row ∈ t.nodes, row.id = job.id ∧ row.leaseFree tick.now = false
  untouched : t.nodes = s.nodes.map fun row =>
    if row.id ∈ jobs.map (·.id) then row.claimed (tick.now + tick.lease) else row
  rest : ∃ debt, t = { s with nodes := t.nodes, quotaDebt := debt }
  served : ∀ state ∈ queueStates,
    min ((QueueQuota.forCapacity capacity).byState state) (s.eligibleCount state tick.now) ≤
      jobs.countP fun job => job.lifecycleState = state
  conserving : jobs.length < capacity →
    ∀ state ∈ queueStates, ∀ row ∈ t.nodes, row.eligible state tick.now = false

omit [F64 F] in
/-- A refinement of what the tick takes keeps the promise. -/
theorem Refines.claimsFairly {capacity : ℕ} (hk : s.WellKeyed) (lease : 0 < tick.lease)
    (h : Refines tick s acc (servedByTick s capacity tick.now)) :
    ClaimsFairly tick capacity s acc.1 acc.2 := by
  obtain ⟨hbounded, hquota, hconserving⟩ := servedByTick_spec s capacity tick.now
  rw [h.total] at hbounded hconserving
  refine ⟨h.claiming.distinct, hbounded, ?_, ?_, h.claiming.rows, ⟨s.quotaDebt, h.claiming.rest⟩,
    ?_, ?_⟩
  · intro job hj
    obtain ⟨hstate, row, hr, hid, he⟩ := h.claiming.jobs job hj
    exact ⟨hstate, row, hr, hid, he, Node.leaseFree_of_eligible he⟩
  · intro job hj
    obtain ⟨-, row, hr, hid, -⟩ := h.claiming.jobs job hj
    have hmem : row.id ∈ acc.2.map (·.id) := hid ▸ List.mem_map_of_mem hj
    refine ⟨row.claimed (tick.now + tick.lease), ?_, hid, ?_⟩
    · rw [h.claiming.rows]
      exact List.mem_map.mpr ⟨row, hr, if_pos hmem⟩
    · have hlate : ¬ tick.now + tick.lease ≤ tick.now := not_le.mpr (lt_add_of_pos_right _ lease)
      exact decide_eq_false hlate
  · intro state hstate
    rw [← h.of state hstate]
    exact hquota state hstate
  · intro hfree state hstate row hr
    have hempty := hconserving.resolve_left (Nat.ne_of_lt hfree) state hstate
    have hleft := h.claiming.left hk hstate
    rw [← h.of state hstate, hempty] at hleft
    have hnone : acc.1.eligibleCount state tick.now = 0 := by omega
    have hall := List.countP_eq_zero.mp hnone row hr
    simpa using hall

end Claims

/-- A tick keeps its promise on every store, and the quotas are the capacity in whole shares. -/
theorem claim_due_correct [F64 F] {s : Store F} (keyed : s.WellKeyed) {tick : ClaimTick F}
    (lease : 0 < tick.lease) {capacity : ℕ} (positive : 1 ≤ capacity) :
    ClaimsFairly tick capacity s (s.claimDue capacity tick).1 (s.claimDue capacity tick).2 ∧
    ((QueueQuota.forCapacity capacity).new + (QueueQuota.forCapacity capacity).successfulProbation +
      (QueueQuota.forCapacity capacity).recoverableDormant +
        (QueueQuota.forCapacity capacity).exploration = capacity) ∧
    ∀ state ∈ queueStates,
      (QueueQuota.forCapacity capacity).byState state =
        capacity * QueueQuota.percent state / 100 ∨
      (QueueQuota.forCapacity capacity).byState state =
        capacity * QueueQuota.percent state ⌈/⌉ 100 := by
  refine ⟨?_, QueueQuota.sum_forCapacity capacity,
    fun state hstate => QueueQuota.byState_forCapacity capacity hstate⟩
  have hfair := (claimPasses_refines keyed capacity tick).claimsFairly keyed lease
  obtain ⟨hjobs, debt, hstore⟩ := s.claimDue_passes capacity tick
  rw [Nat.max_eq_left positive] at hjobs hstore
  rw [hjobs, hstore]
  generalize s.claimPasses capacity tick = result at hfair ⊢
  obtain ⟨old, hrest⟩ := hfair.rest
  refine { hfair with rest := ⟨debt, ?_⟩ }
  rw [hrest]

/-- Three new nodes, one revived, one active and one that waits for a port. -/
def queuedWrites : List (Write ℚ) :=
  (["first", "second", "third", "revived", "active", "waiting"].map fun id =>
    .ingestOne 0 { sampleProxy with configHash := "hash of " ++ id } id 1) ++ [
  .reviveNode 0 "revived",
  .applyTestEvent 0 { sampleEvent "run" .download .success with proxyId := "active" }
    defaultCadence 1,
  .claimRow 0 (minutes 1) "waiting",
  .releaseTestLease "waiting",
  .markWaitingForPort 0 "waiting" (minutes 1)]

/-- Two new nodes and the revived one have their share, and the spare capacity goes to the
first queue again. -/
theorem claim_due_correct_queued :
    ClaimsFairly (sampleTick (hours 2)) 5 (Store.empty.writes queuedWrites)
      ((Store.empty.writes queuedWrites).claimDue 5 (sampleTick (hours 2))).1
      ((Store.empty.writes queuedWrites).claimDue 5 (sampleTick (hours 2))).2 ∧
    ((Store.empty.writes queuedWrites).claimDue 5 (sampleTick (hours 2))).2.map (·.id) =
      ["first", "second", "revived", "third", "waiting"] := by
  refine ⟨(claim_due_correct (Store.wellKeyed_empty.writes _) (by decide) (by decide)).1, ?_⟩
  unfold Store.claimDue
  decide +kernel

end ProxyFleet
