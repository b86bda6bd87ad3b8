import ProxyFleet.StoreRuns

/-!
# Claiming due tests

A tick shares its capacity among four queues, selects the due rows of each queue
by priority, and claims every selected row by an update of its own. Unused shares
overflow to the other queues in order. The update checks nothing but the lease.
-/
namespace ProxyFleet

variable {F : Type}

structure TestJob where
  id : String
  rawConfig : Text
  lifecycleState : LifecycleState
  reason : String
  downloadDue : Bool

structure QueueQuota where
  new : ℕ
  successfulProbation : ℕ
  recoverableDormant : ℕ
  exploration : ℕ
  deriving DecidableEq, Repr

def queueOrder : List (LifecycleState × String) := [
  (.candidate, "new"),
  (.probation, "successful_probation"),
  (.dormant, "recoverable_dormant"),
  (.active, "active_revalidation")]

/-- The states from which a test is claimed. -/
def queueStates : List LifecycleState := queueOrder.map (·.1)

namespace QueueQuota

/-- One share while it is being allotted. -/
structure Share where
  whole : ℕ
  remainder : ℕ
  priority : ℕ

def Share.LargestFirst (a b : Share) : Prop :=
  b.remainder < a.remainder ∨ b.remainder = a.remainder ∧ a.priority ≤ b.priority

instance : DecidableRel Share.LargestFirst :=
  fun _ _ => inferInstanceAs (Decidable (_ ∨ _ ∧ _))

/-- The shares 40, 30, 20 and 10 percent, rounded by largest remainders. -/
def forCapacity (capacity : ℕ) : QueueQuota :=
  let shares : List Share := [40, 30, 20, 10].mapIdx fun priority percent =>
    ⟨capacity * percent / 100, capacity * percent % 100, priority⟩
  let allocated := (shares.map (·.whole)).sum
  let rounded := (shares.insertionSort Share.LargestFirst).mapIdx fun i share =>
    if i < capacity - allocated then { share with whole := share.whole + 1 } else share
  let whole (priority : ℕ) :=
    ((rounded.find? fun share => share.priority = priority).map (·.whole)).getD 0
  ⟨whole 0, whole 1, whole 2, whole 3⟩

def byState (quota : QueueQuota) : LifecycleState → ℕ
  | .candidate => quota.new
  | .probation => quota.successfulProbation
  | .dormant => quota.recoverableDormant
  | .active => quota.exploration
  | _ => 0

end QueueQuota

namespace QueueDebt

variable [F64 F]

def default : QueueDebt F := ⟨F64.ofRat 0, F64.ofRat 0, F64.ofRat 0, F64.ofRat 0⟩

def accrue (debt : QueueDebt F) (capacity : ℕ) : QueueDebt F :=
  let capacity : F := F64.ofInt (max capacity 1 : ℕ)
  let cap := F64.mul capacity (F64.ofRat 4)
  let accrued (credit : F) (share : ℚ) :=
    F64.clamp (F64.add credit (F64.mul capacity (F64.ofRat share))) (F64.ofRat (-1)) cap
  ⟨accrued debt.candidate (40 / 100), accrued debt.probation (30 / 100),
    accrued debt.dormant (20 / 100), accrued debt.active (10 / 100)⟩

def consume (debt : QueueDebt F) (state : LifecycleState) : QueueDebt F :=
  let spend (credit : F) := F64.add credit (F64.ofRat (-1))
  match state with
  | .candidate => { debt with candidate := spend debt.candidate }
  | .probation => { debt with probation := spend debt.probation }
  | .dormant => { debt with dormant := spend debt.dormant }
  | .active => { debt with active := spend debt.active }
  | _ => debt

end QueueDebt

/-- What one tick passes to the claims of every queue. -/
structure ClaimTick (F : Type) where
  now : Time
  lease : Time
  activeDownloadInterval : Time
  pressure : F

/-- `NULL` sorts before every value. -/
def NullsFirst : Option ℤ → Option ℤ → Prop
  | none, _ => True
  | some _, none => False
  | some x, some y => x ≤ y

instance : DecidableRel NullsFirst := fun a b => by
  cases a <;> cases b <;> unfold NullsFirst <;> infer_instance

namespace Node

/-- The test time has come, or was never set. -/
def due (row : Node F) (now : Time) : Bool :=
  match row.nextTestAt with
  | none => true
  | some time => decide (time ≤ now)

/-- The first branch of the selection: the row stands in the queue's state. -/
def eligibleDirectly (row : Node F) (state : LifecycleState) (now : Time) : Bool :=
  row.lifecycleState = state && row.structurallyValid && row.due now && row.leaseFree now

/-- The second branch: the row waits for a port and was claimed from the queue's state. -/
def eligibleWaiting (row : Node F) (state : LifecycleState) (now : Time) : Bool :=
  row.lifecycleState = .waitingForPort && row.waitingFromState = some state &&
    row.structurallyValid && row.due now && row.leaseFree now

def eligible (row : Node F) (state : LifecycleState) (now : Time) : Bool :=
  row.eligibleDirectly state now || row.eligibleWaiting state now

variable [F64 F]

def claimPriority (row : Node F) (tick : ClaimTick F) : ℤ :=
  let untested := row.lastRealDownloadAt.isNone
  let expiring := row.publicationLeaseUntil.any fun lease => lease ≤ tick.now + hours 1
  let stale := row.lastTestAt.all fun time => time ≤ tick.now - hours 1
  let pressured := F64.le (F64.ofRat (75 / 100))
    (F64.clamp tick.pressure (F64.ofRat 0) (F64.ofRat 1))
  (if expiring then 100 else 0) + (if !untested then 80 else 0) +
    (if row.lastFailureClass = some .tlsTimeout then 50 else 0) + (if stale then 40 else 0) +
    (if row.lastSeenGeneration.isSome then 30 else 0) -
    (if untested && decide (5 ≤ row.failureStreak) then 80 else 0) -
    (if pressured && untested then 100 else 0)

/-- A bucket of the configuration hash, `NULL` for a hash of fewer than two characters. -/
def hashBucket (row : Node F) : Option ℤ :=
  match row.configHash.toList with
  | a :: b :: _ => some ((a.toNat * 31 + b.toNat) % 17 : ℕ)
  | _ => none

/-- The `ORDER BY` of the selection. -/
def ClaimedBefore (tick : ClaimTick F) (a b : Node F) : Prop :=
  b.claimPriority tick < a.claimPriority tick ∨ b.claimPriority tick = a.claimPriority tick ∧
    (¬ NullsFirst b.hashBucket a.hashBucket ∨ a.hashBucket = b.hashBucket ∧
      (a.configHash < b.configHash ∨ a.configHash = b.configHash ∧
        NullsFirst a.nextTestAt b.nextTestAt))

instance (tick : ClaimTick F) : DecidableRel (ClaimedBefore (F := F) tick) :=
  fun _ _ => inferInstanceAs (Decidable (_ ∨ _ ∧ (_ ∨ _ ∧ (_ ∨ _ ∧ _))))

/-- The job that a claimed row becomes. -/
def job (row : Node F) (tick : ClaimTick F) (state : LifecycleState) (reason : String) :
    TestJob where
  id := row.id
  rawConfig := row.rawConfig
  lifecycleState := state
  reason := reason
  downloadDue := state ≠ .active ||
    row.lastRealDownloadAt.all fun time => time + tick.activeDownloadInterval ≤ tick.now

end Node

namespace Store

variable [F64 F]

/-- The `SELECT` of one queue. -/
def selectClaims (s : Store F) (tick : ClaimTick F) (state : LifecycleState) (limit : ℕ) :
    List (Node F) :=
  (((s.nodes.filter fun row => row.eligibleDirectly state tick.now) ++
    s.nodes.filter fun row => row.eligibleWaiting state tick.now).insertionSort
      (Node.ClaimedBefore tick)).take limit

/-- The update of one claim finds its row with a free lease. -/
def claimMatches (s : Store F) (now : Time) (id : String) : Bool :=
  s.nodes.any fun row => row.id = id && row.leaseFree now

/-- One selected row: it becomes a job if its own update still matches. -/
def claimSelected (tick : ClaimTick F) (state : LifecycleState) (reason : String)
    (acc : Store F × List TestJob) (row : Node F) : Store F × List TestJob :=
  (acc.1.claimRow tick.now (tick.now + tick.lease) row.id,
    if acc.1.claimMatches tick.now row.id then acc.2 ++ [row.job tick state reason] else acc.2)

def appendClaims (tick : ClaimTick F) (totalLimit : ℕ) (acc : Store F × List TestJob)
    (state : LifecycleState) (queueLimit : ℕ) (reason : String) : Store F × List TestJob :=
  if queueLimit = 0 ∨ totalLimit ≤ acc.2.length then acc
  else
    let remaining := min queueLimit (totalLimit - acc.2.length)
    (acc.1.selectClaims tick state remaining).foldl (claimSelected tick state reason) acc

/-- The claims of one queue, each of which costs one credit. -/
def claimQueue (tick : ClaimTick F) (capacity : ℕ) (limit : LifecycleState → ℕ → ℕ)
    (acc : (Store F × List TestJob) × QueueDebt F) (queue : LifecycleState × String) :
    (Store F × List TestJob) × QueueDebt F :=
  let before := acc.1.2.length
  let next := appendClaims tick capacity acc.1 queue.1 (limit queue.1 before) queue.2
  (next, (fun debt => QueueDebt.consume debt queue.1)^[next.2.length - before] acc.2)

/-- One pass over the queues. The limit of a queue may depend on the jobs claimed so far. -/
def claimPass (tick : ClaimTick F) (capacity : ℕ) (limit : LifecycleState → ℕ → ℕ)
    (acc : (Store F × List TestJob) × QueueDebt F) : (Store F × List TestJob) × QueueDebt F :=
  queueOrder.foldl (claimQueue tick capacity limit) acc

/-- Guaranteed quotas first, then the overflow. -/
def claimPasses (s : Store F) (capacity : ℕ) (tick : ClaimTick F) :
    (Store F × List TestJob) × QueueDebt F :=
  let quota := QueueQuota.forCapacity capacity
  let guaranteed := claimPass tick capacity (fun state _ => quota.byState state)
    ((s, []), (s.quotaDebt.getD QueueDebt.default).accrue capacity)
  claimPass tick capacity (fun _ claimed => capacity - claimed) guaranteed

/-- A whole tick. The credits are stored when something was claimed. -/
@[irreducible] def claimDue (s : Store F) (capacity : ℕ) (tick : ClaimTick F) :
    Store F × List TestJob :=
  let ((claimed, jobs), debt) := s.claimPasses (max capacity 1) tick
  (if jobs.isEmpty then claimed else { claimed with quotaDebt := some debt }, jobs)

end Store

/-- What claiming does: due rows of the queues become jobs, and nothing else changes. -/
structure ClaimsOnly [F64 F] (tick : ClaimTick F) (acc acc' : Store F × List TestJob) : Prop where
  rows : ∀ row' ∈ acc'.1.nodes, row' ∈ acc.1.nodes ∨
    ∃ row ∈ acc.1.nodes, ∃ state ∈ queueStates, row.eligible state tick.now = true ∧
      row' = row.claimed (tick.now + tick.lease) ∧ ∃ job ∈ acc'.2, job.id = row.id
  jobs : acc.2 ⊆ acc'.2
  writes : ∃ ids : List String,
    acc'.1 = acc.1.writes (ids.map (.claimRow tick.now (tick.now + tick.lease)))

theorem Node.claimed_not_eligible (row : Node F) (leaseUntil : Time) {state : LifecycleState}
    (h : state ∈ queueStates) (now : Time) :
    (row.claimed leaseUntil).eligible state now = false := by
  have hne : LifecycleState.testing ≠ state := by
    rintro rfl
    simp [queueStates, queueOrder] at h
  simp [Node.eligible, Node.eligibleDirectly, Node.eligibleWaiting, Node.claimed, hne]

namespace ClaimsOnly

variable [F64 F] {tick : ClaimTick F} {a b c : Store F × List TestJob}

theorem refl (a : Store F × List TestJob) : ClaimsOnly tick a a :=
  ⟨fun _ hr => .inl hr, fun _ hj => hj, [], rfl⟩

theorem trans (hab : ClaimsOnly tick a b) (hbc : ClaimsOnly tick b c) : ClaimsOnly tick a c := by
  refine ⟨fun row' hr' => ?_, fun _ hj => hbc.jobs (hab.jobs hj), ?_⟩
  · obtain hr | ⟨row, hr, state, hstate, he, rfl, hjob⟩ := hbc.rows row' hr'
    · obtain hr | ⟨row, hrow, state, hstate, he, rfl, job, hj, hid⟩ := hab.rows row' hr
      · exact .inl hr
      · exact .inr ⟨row, hrow, state, hstate, he, rfl, job, hbc.jobs hj, hid⟩
    · obtain hr' | ⟨old, -, -, -, -, rfl, -⟩ := hab.rows row hr
      · exact .inr ⟨row, hr', state, hstate, he, rfl, hjob⟩
      · rw [Node.claimed_not_eligible _ _ hstate] at he
        cases he
  · obtain ⟨ids, hids⟩ := hab.writes
    obtain ⟨ids', hids'⟩ := hbc.writes
    exact ⟨ids ++ ids', by rw [hids', hids, List.map_append, Store.writes_append]⟩

theorem wellKeyed (h : ClaimsOnly tick a b) (hk : a.1.WellKeyed) : b.1.WellKeyed := by
  obtain ⟨ids, hids⟩ := h.writes
  rw [hids]
  exact hk.writes _

end ClaimsOnly

section Spec

variable [F64 F] {tick : ClaimTick F} {state : LifecycleState} {reason : String}

/-- A selected row that is still in the table becomes a job. -/
theorem claimSelected_spec {acc : Store F × List TestJob} (hk : acc.1.WellKeyed)
    (hstate : state ∈ queueStates) {row : Node F} (hr : row ∈ acc.1.nodes)
    (he : row.eligible state tick.now = true) :
    ClaimsOnly tick acc (Store.claimSelected tick state reason acc row) := by
  have hfree : row.leaseFree tick.now = true := by
    simp only [Node.eligible, Node.eligibleDirectly, Node.eligibleWaiting, Bool.or_eq_true,
      Bool.and_eq_true] at he
    exact he.elim (·.2) (·.2)
  have hmatched : acc.1.claimMatches tick.now row.id = true :=
    List.any_eq_true.mpr ⟨row, hr, by simp [hfree]⟩
  refine ⟨fun row' hr' => ?_, ?_, [row.id], rfl⟩
  · obtain ⟨r, hr₁, ⟨hg, rfl⟩ | ⟨-, rfl⟩⟩ := Store.mem_updateNodes.mp hr'
    · simp only [Bool.and_eq_true, decide_eq_true_eq] at hg
      obtain rfl := RowUpdates.eq_of_key_eq hk.ids hr₁ hr hg.1
      refine .inr ⟨r, hr₁, state, hstate, he, rfl, r.job tick state reason, ?_, rfl⟩
      simp [Store.claimSelected, hmatched]
    · exact .inl hr₁
  · simp only [Store.claimSelected, hmatched, if_true]
    exact List.subset_append_left _ _

/-- The rows of one selection are claimed one after the other; none stands in another's way. -/
theorem foldl_claimSelected_spec (hstate : state ∈ queueStates) (rows : List (Node F))
    {acc : Store F × List TestJob} (hk : acc.1.WellKeyed) (hn : (rows.map (·.id)).Nodup)
    (h : ∀ row ∈ rows, row ∈ acc.1.nodes ∧ row.eligible state tick.now = true) :
    ClaimsOnly tick acc (rows.foldl (Store.claimSelected tick state reason) acc) := by
  induction rows generalizing acc with
  | nil => exact .refl acc
  | cons row rows ih =>
    have hfirst : ClaimsOnly tick acc (Store.claimSelected tick state reason acc row) :=
      claimSelected_spec hk hstate (h row List.mem_cons_self).1 (h row List.mem_cons_self).2
    rw [List.map_cons, List.nodup_cons] at hn
    refine hfirst.trans (ih (hfirst.wellKeyed hk) hn.2 fun r hr => ?_)
    have hne : r.id ≠ row.id := fun he => hn.1 (he ▸ List.mem_map_of_mem hr)
    refine ⟨Store.mem_updateNodes.mpr ⟨r, (h r (List.mem_cons_of_mem _ hr)).1, .inr ⟨?_, rfl⟩⟩,
      (h r (List.mem_cons_of_mem _ hr)).2⟩
    simp [hne]

theorem mem_selectClaims {s : Store F} {limit : ℕ} {row : Node F}
    (h : row ∈ s.selectClaims tick state limit) :
    row ∈ s.nodes ∧ row.eligible state tick.now = true := by
  have h := List.mem_of_mem_take h
  rw [List.mem_insertionSort, List.mem_append, List.mem_filter, List.mem_filter] at h
  unfold Node.eligible
  obtain ⟨hr, he⟩ | ⟨hr, he⟩ := h
  · exact ⟨hr, by rw [he, Bool.true_or]⟩
  · exact ⟨hr, by rw [he, Bool.or_true]⟩

theorem selectClaims_nodup {s : Store F} (hk : s.WellKeyed) (hstate : state ∈ queueStates)
    (limit : ℕ) : ((s.selectClaims tick state limit).map (·.id)).Nodup := by
  have hsub : ∀ p : Node F → Bool, ((s.nodes.filter p).map (·.id)).Nodup :=
    fun _ => hk.ids.sublist (List.filter_sublist.map _)
  have happ : (((s.nodes.filter fun row => row.eligibleDirectly state tick.now) ++
      s.nodes.filter fun row => row.eligibleWaiting state tick.now).map (·.id)).Nodup := by
    rw [List.map_append, List.nodup_append]
    refine ⟨hsub _, hsub _, ?_⟩
    intro id h id' h' heq
    obtain ⟨row, hrow, rfl⟩ := List.mem_map.mp h
    obtain ⟨row', hrow', rfl⟩ := List.mem_map.mp h'
    obtain ⟨hr, he⟩ := List.mem_filter.mp hrow
    obtain ⟨hr', he'⟩ := List.mem_filter.mp hrow'
    obtain rfl := RowUpdates.eq_of_key_eq hk.ids hr hr' heq
    simp only [Node.eligibleDirectly, Node.eligibleWaiting, Bool.and_eq_true,
      decide_eq_true_eq] at he he'
    have hwait : state = .waitingForPort := he.1.1.1.symm.trans he'.1.1.1.1
    simp [hwait, queueStates, queueOrder] at hstate
  refine List.Nodup.sublist ((List.take_sublist _ _).map _) ?_
  exact ((List.perm_insertionSort _ _).map _).nodup_iff.mpr happ

theorem appendClaims_spec (hstate : state ∈ queueStates) (totalLimit queueLimit : ℕ)
    {acc : Store F × List TestJob} (hk : acc.1.WellKeyed) :
    ClaimsOnly tick acc (Store.appendClaims tick totalLimit acc state queueLimit reason) := by
  unfold Store.appendClaims
  split
  · exact .refl acc
  · exact foldl_claimSelected_spec hstate _ hk (selectClaims_nodup hk hstate _)
      fun row hr => mem_selectClaims hr

theorem claimPass_spec (tick : ClaimTick F) (capacity : ℕ) (limit : LifecycleState → ℕ → ℕ)
    (acc : (Store F × List TestJob) × QueueDebt F) (hk : acc.1.1.WellKeyed) :
    ClaimsOnly tick acc.1 (Store.claimPass tick capacity limit acc).1 := by
  have hpass : ∀ (queues : List (LifecycleState × String))
      (acc : (Store F × List TestJob) × QueueDebt F), acc.1.1.WellKeyed →
      (∀ q ∈ queues, q.1 ∈ queueStates) →
      ClaimsOnly tick acc.1 (queues.foldl (Store.claimQueue tick capacity limit) acc).1 := by
    intro queues
    induction queues with
    | nil => exact fun acc _ _ => .refl acc.1
    | cons q queues ih =>
      intro acc hk hq
      have hfirst : ClaimsOnly tick acc.1 (Store.claimQueue tick capacity limit acc q).1 :=
        appendClaims_spec (hq q List.mem_cons_self) capacity (limit q.1 acc.1.2.length) hk
      exact hfirst.trans (ih (Store.claimQueue tick capacity limit acc q) (hfirst.wellKeyed hk)
        fun q hm => hq q (List.mem_cons_of_mem _ hm))
  exact hpass queueOrder acc hk fun q hq => List.mem_map_of_mem hq

theorem claimPasses_spec (tick : ClaimTick F) {s : Store F} (hk : s.WellKeyed) (capacity : ℕ) :
    ClaimsOnly tick (s, []) (s.claimPasses capacity tick).1 := by
  have hfirst := claimPass_spec tick capacity
    (fun state _ => (QueueQuota.forCapacity capacity).byState state)
    ((s, []), (s.quotaDebt.getD QueueDebt.default).accrue capacity) hk
  exact hfirst.trans (claimPass_spec tick capacity (fun _ claimed => capacity - claimed) _
    (hfirst.wellKeyed hk))

/-- A tick claims due rows of the four queues, each as a job of its result, and writes the
credits that are left. -/
theorem claimDue_spec (tick : ClaimTick F) {s : Store F} (hk : s.WellKeyed) (capacity : ℕ) :
    ∃ claimed : Store F, ClaimsOnly tick (s, []) (claimed, (s.claimDue capacity tick).2) ∧
      (s.claimDue capacity tick).1.nodes = claimed.nodes ∧
      ∃ ws, (s.claimDue capacity tick).1 = claimed.writes ws := by
  have h := claimPasses_spec tick hk (max capacity 1)
  unfold Store.claimDue
  generalize s.claimPasses (max capacity 1) tick = result at h ⊢
  obtain ⟨⟨claimed, jobs⟩, debt⟩ := result
  refine ⟨claimed, h, ?_⟩
  dsimp only
  split
  · exact ⟨rfl, [], rfl⟩
  · exact ⟨rfl, [.setQuotaDebt debt], rfl⟩

/-- A tick is a run of writes. -/
theorem claimDue_writes (tick : ClaimTick F) {s : Store F} (hk : s.WellKeyed) (capacity : ℕ) :
    ∃ ws, (s.claimDue capacity tick).1 = s.writes ws := by
  obtain ⟨claimed, hclaims, -, ws, hws⟩ := claimDue_spec tick hk capacity
  obtain ⟨ids, hids⟩ := hclaims.writes
  exact ⟨_, by rw [hws, show claimed = _ from hids, ← Store.writes_append]⟩

end Spec

/-- A tick of the concrete runs, which claims for a minute. -/
def sampleTick (now : Time) : ClaimTick ℚ where
  now := now
  lease := minutes 1
  activeDownloadInterval := minutes 5
  pressure := 0

end ProxyFleet
