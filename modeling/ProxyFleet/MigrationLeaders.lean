import ProxyFleet.ExclusiveSections
import ProxyFleet.LegacyMigration
import ProxyFleet.ObservedRuns

/-!
# The leader of a migration

Instances that start at once elect the one that migrates through a lock file. The file is created
only if it is missing, is deleted when its owner is through, and counts as abandoned after fifteen
minutes, when whoever waits for it may delete it.
-/
namespace ProxyFleet

variable {F : Type} [F64 F]

/-- Where an instance stands in `acquire_migration_leader` and `migrate`. -/
inductive LeaderStage where
  | away
  | waiting (deadline : Time)
  | blocked (deadline : Time)
  | removing (deadline : Time) (seen : Time)
  | timedOut
  | leading (since : Time)
  deriving DecidableEq

/-- The database, the modification time of the lock file, and the instances. -/
structure StartingFleet (F : Type) where
  table : NodesTable F
  clock : Time
  lock : Option Time := none
  stages : ℕ → LeaderStage := fun _ => .away

/-- The steps of an instance: it asks for the lock, tries to create the file, looks at the age of
the one that exists, deletes it, migrates, and drops its guard. It can be lost at any point. -/
inductive StartEvent where
  | pass (now : Time)
  | ask (caller : ℕ)
  | attempt (caller : ℕ)
  | inspect (caller : ℕ)
  | remove (caller : ℕ)
  | migrate (caller : ℕ)
  | drop (caller : ℕ)
  | crash (caller : ℕ)

namespace StartingFleet

def abandonedAfter : Time := minutes 15

def patience : Time := seconds 90

variable (w : StartingFleet F)

omit [F64 F] in
def relock (p : ℕ) (stage : LeaderStage) (lock : Option Time) : StartingFleet F :=
  { w with stages := Function.update w.stages p stage, lock := lock }

omit [F64 F] in
def move (p : ℕ) (stage : LeaderStage) : StartingFleet F := w.relock p stage w.lock

/-- A step of an instance that does not stand where the step begins changes nothing. -/
def step (w : StartingFleet F) : StartEvent → StartingFleet F
  | .pass now => { w with clock := now }
  | .ask p =>
    match w.stages p with
    | .away => w.move p (.waiting (w.clock + patience))
    | _ => w
  | .attempt p =>
    match w.stages p, w.lock with
    | .waiting _, none => w.relock p (.leading w.clock) (some w.clock)
    | .waiting deadline, some _ => w.move p (.blocked deadline)
    | _, _ => w
  | .inspect p =>
    match w.stages p with
    | .blocked deadline =>
      match w.lock.filter fun modified => decide (abandonedAfter < w.clock - modified) with
      | some seen => w.move p (.removing deadline seen)
      | none => if deadline ≤ w.clock then w.move p .timedOut else w.move p (.waiting deadline)
    | _ => w
  | .remove p =>
    match w.stages p with
    | .removing deadline _ => w.relock p (.waiting deadline) none
    | _ => w
  | .migrate p =>
    match w.stages p with
    | .leading _ => { w with table := w.table.migrate w.clock }
    | _ => w
  | .drop p =>
    match w.stages p with
    | .leading _ => w.relock p .away none
    | _ => w
  | .crash p => w.move p .away

/-- The clock does not go back, a leader is through before its file counts as abandoned, and a
waiting instance deletes no other file than the one that it looked at. -/
def Admits (w : StartingFleet F) : StartEvent → Prop
  | .pass now => w.clock ≤ now ∧
    ∀ p since, w.stages p = .leading since → now ≤ since + abandonedAfter
  | .remove p => ∀ deadline seen, w.stages p = .removing deadline seen →
    ∀ modified ∈ w.lock, modified = seen
  | _ => True

def Leads (p : ℕ) : Prop := ∃ since, w.stages p = .leading since

/-- What the file says about an instance. -/
def Current (lock : Option Time) (clock : Time) : LeaderStage → Prop
  | .leading since => lock = some since ∧ clock ≤ since + abandonedAfter
  | .removing _ seen => seen + abandonedAfter < clock
  | _ => True

/-- The table before any migration, or after one whose rows none changes again. -/
def MigratedOnce (legacy : NodesTable F) (table : NodesTable F) : Prop :=
  table = legacy ∨ ∃ now, table.rows = (legacy.migrate now).rows ∧ ∀ c, c ∈ table.columns

structure Led (legacy : NodesTable F) (w : StartingFleet F) : Prop where
  guarded : Guarded (w.lock.isSome = true) w.Leads
  current : ∀ p, Current w.lock w.clock (w.stages p)
  migrated : MigratedOnce legacy w.table

variable {w : StartingFleet F} {legacy : NodesTable F} {p : ℕ}

section

omit [F64 F]

theorem leads_of_update {q : ℕ} {stage : LeaderStage}
    (h : ∃ since, Function.update w.stages p stage q = .leading since) :
    q = p ∧ (∃ since, stage = .leading since) ∨ q ≠ p ∧ w.Leads q := by
  by_cases hq : q = p
  · subst hq
    rw [Function.update_self] at h
    exact .inl ⟨rfl, h⟩
  · rw [Function.update_of_ne hq] at h
    exact .inr ⟨hq, h⟩

/-- Without a leader, the lock file says nothing about anybody. -/
theorem Current.relocked {lock lock' : Option Time} {clock : Time} {stage : LeaderStage}
    (h : Current lock clock stage) (follows : ∀ since, stage ≠ .leading since) :
    Current lock' clock stage := by
  cases stage with
  | leading since => exact absurd rfl (follows since)
  | removing deadline seen => exact h
  | _ => trivial

end

theorem migratedOnce_migrate (fresh : .lifecycleState ∉ legacy.columns) {table : NodesTable F}
    (h : MigratedOnce legacy table) (now : Time) : MigratedOnce legacy (table.migrate now) := by
  refine .inr ?_
  obtain rfl | ⟨first, hrows, hcolumns⟩ := h
  · exact ⟨now, rfl, table.migrate_columns now⟩
  · refine ⟨first, ?_, table.migrate_columns now⟩
    rw [NodesTable.migrate_rows, hrows]
    conv_rhs => rw [← List.map_id (legacy.migrate first).rows]
    apply List.map_congr_left
    intro after hafter
    rw [NodesTable.migrate_rows, List.mem_map] at hafter
    obtain ⟨row, -, rfl⟩ := hafter
    rw [StoredNode.addColumns_of_complete _ hcolumns]
    exact (StoredNode.settled_applyUpdates (StoredNode.lifecycleState_addColumns fresh)
      first).applyUpdates now

namespace Led

/-- An instance that does not lead and will not lead goes on. -/
theorem follows (h : w.Led legacy) {stage : LeaderStage} (hstage : ∀ since, stage ≠ .leading since)
    (current : Current w.lock w.clock stage) : (w.move p stage).Led legacy := by
  refine ⟨h.guarded.mono id fun q hq => ?_, ?_, h.migrated⟩
  · obtain ⟨-, since, hleading⟩ | ⟨-, hleads⟩ := leads_of_update hq
    · exact absurd hleading (hstage since)
    · exact hleads
  · exact (Function.forall_update_iff w.stages fun _ => Current w.lock w.clock).mpr
      ⟨current, fun q _ => h.current q⟩

/-- Where nobody leads any more, the lock can be changed. -/
theorem unlocked (h : w.Led legacy) {stage : LeaderStage}
    (hstage : ∀ since, stage ≠ .leading since) (others : ∀ q, q ≠ p → ¬ w.Leads q)
    (current : Current none w.clock stage) :
    (w.relock p stage none).Led legacy := by
  refine ⟨.of_empty fun q hq => ?_, ?_, h.migrated⟩
  · obtain ⟨-, since, hleading⟩ | ⟨hne, hleads⟩ := leads_of_update hq
    · exact hstage since hleading
    · exact others q hne hleads
  · refine (Function.forall_update_iff w.stages fun _ => Current none w.clock).mpr
      ⟨current, fun q hne => (h.current q).relocked fun since hleading => ?_⟩
    exact others q hne ⟨since, hleading⟩

/-- The file is missing, so nobody leads, and the instance that creates it is the only one. -/
theorem created (h : w.Led legacy) (unlocked : w.lock = none) :
    (w.relock p (.leading w.clock) (some w.clock)).Led legacy := by
  have hnobody : ∀ q, ¬ w.Leads q := fun q hq => by
    have hclosed := h.guarded.closed q hq
    rw [unlocked] at hclosed
    cases hclosed
  have hentered : ∀ q, (∃ since, Function.update w.stages p (.leading w.clock) q =
      .leading since) → q = p ∨ w.Leads q :=
    fun q hq => (leads_of_update hq).imp And.left And.right
  refine ⟨h.guarded.enter (by simp [unlocked]) rfl hentered, ?_, h.migrated⟩
  refine (Function.forall_update_iff w.stages fun _ => Current (some w.clock) w.clock).mpr
    ⟨⟨rfl, by simp [abandonedAfter, minutes, seconds]⟩, fun q _ => (h.current q).relocked ?_⟩
  exact fun since hleading => hnobody q ⟨since, hleading⟩

/-- Every admitted step keeps one leader at most, with the lock file as its own. -/
theorem step (fresh : .lifecycleState ∉ legacy.columns) (h : w.Led legacy) {event : StartEvent}
    (admitted : w.Admits event) : (w.step event).Led legacy := by
  cases event with
  | pass now =>
    refine ⟨h.guarded, fun p => ?_, h.migrated⟩
    have hcurrent := h.current p
    show Current w.lock now (w.stages p)
    cases hstage : w.stages p with
    | leading since =>
      rw [hstage] at hcurrent
      exact ⟨hcurrent.1, admitted.2 p since hstage⟩
    | removing deadline seen =>
      rw [hstage] at hcurrent
      exact hcurrent.trans_le admitted.1
    | _ => trivial
  | ask p =>
    rw [StartingFleet.step]
    split
    · exact h.follows (by simp) trivial
    · exact h
  | attempt p =>
    rw [StartingFleet.step]
    split
    · next hlock => exact h.created hlock
    · exact h.follows (by simp) trivial
    · exact h
  | inspect p =>
    rw [StartingFleet.step]
    split
    · split
      · next seen hseen =>
        obtain ⟨-, hold⟩ := Option.filter_eq_some_iff.mp hseen
        have hold' : abandonedAfter < w.clock - seen := of_decide_eq_true hold
        refine h.follows (by simp) ?_
        exact lt_sub_iff_add_lt'.mp hold'
      · split
        · exact h.follows (by simp) trivial
        · exact h.follows (by simp) trivial
    · exact h
  | remove p =>
    rw [StartingFleet.step]
    split
    · next deadline seen hstage =>
      have hold := h.current p
      rw [hstage] at hold
      refine h.unlocked (by simp) (fun q _ ⟨since, hleading⟩ => ?_) trivial
      have hcurrent := h.current q
      rw [hleading] at hcurrent
      obtain ⟨hlock, hyoung⟩ := hcurrent
      obtain rfl : since = seen := admitted deadline seen hstage since hlock
      exact absurd hold (not_lt.mpr hyoung)
    · exact h
  | migrate p =>
    rw [StartingFleet.step]
    split
    · exact ⟨h.guarded, h.current, migratedOnce_migrate fresh h.migrated w.clock⟩
    · exact h
  | drop p =>
    rw [StartingFleet.step]
    split
    · next since hleading =>
      refine h.unlocked (by simp) (fun q hne hleads => ?_) trivial
      exact hne (h.guarded.single q p hleads ⟨since, hleading⟩)
    · exact h
  | crash p => exact h.follows (by simp) trivial

end Led

section Recovery

omit [F64 F] in
theorem relock_stages {stage : LeaderStage} {lock : Option Time} :
    (w.relock p stage lock).stages p = stage := Function.update_self ..

theorem step_create {deadline : Time} (waiting : w.stages p = .waiting deadline)
    (unlocked : w.lock = none) : w.step (.attempt p) =
      w.relock p (.leading w.clock) (some w.clock) := by
  rw [step, waiting, unlocked]

theorem step_block {deadline modified : Time} (waiting : w.stages p = .waiting deadline)
    (locked : w.lock = some modified) : w.step (.attempt p) = w.move p (.blocked deadline) := by
  rw [step, waiting, locked]

theorem step_abandoned {deadline modified : Time} (blocked : w.stages p = .blocked deadline)
    (locked : w.lock = some modified) (old : abandonedAfter < w.clock - modified) :
    w.step (.inspect p) = w.move p (.removing deadline modified) := by
  rw [step, blocked, locked, Option.filter_some, decide_eq_true old]
  rfl

theorem step_remove {deadline seen : Time} (removing : w.stages p = .removing deadline seen) :
    w.step (.remove p) = w.relock p (.waiting deadline) none := by
  rw [step, removing]

end Recovery

/-- The polls of a waiting instance that takes over from a lost one. -/
def takeOver (p : ℕ) : List StartEvent := [.attempt p, .inspect p, .remove p, .attempt p]

/-- An instance that finds no file leads at once, and goes on leading. -/
theorem takeOver_unlocked {deadline : Time} (waiting : w.stages p = .waiting deadline)
    (unlocked : w.lock = none) : ObservedRuns.Admitted step Admits w (takeOver p) ∧
      (ObservedRuns.run step w (takeOver p)).Leads p := by
  have hleading : (w.relock p (.leading w.clock) (some w.clock)).stages p = .leading w.clock :=
    relock_stages
  have hinspect : (w.relock p (.leading w.clock) (some w.clock)).step (.inspect p) =
      w.relock p (.leading w.clock) (some w.clock) := by rw [step, hleading]
  have hremove : (w.relock p (.leading w.clock) (some w.clock)).step (.remove p) =
      w.relock p (.leading w.clock) (some w.clock) := by rw [step, hleading]
  have hattempt : (w.relock p (.leading w.clock) (some w.clock)).step (.attempt p) =
      w.relock p (.leading w.clock) (some w.clock) := by rw [step, hleading]
  have hcreated := step_create waiting unlocked
  refine ⟨⟨trivial, trivial, ?_, trivial, trivial⟩, w.clock, ?_⟩
  · rw [hcreated, hinspect]
    intro deadline seen hstage
    rw [hleading] at hstage
    cases hstage
  · simp only [takeOver, ObservedRuns.run_cons, ObservedRuns.run_nil, hcreated, hinspect, hremove,
      hattempt]
    exact hleading

/-- An instance that finds an old file deletes it and leads. -/
theorem takeOver_abandoned {deadline modified : Time} (waiting : w.stages p = .waiting deadline)
    (locked : w.lock = some modified) (old : abandonedAfter < w.clock - modified) :
    ObservedRuns.Admitted step Admits w (takeOver p) ∧
      (ObservedRuns.run step w (takeOver p)).Leads p := by
  have hblocked := step_block waiting locked
  have hremoving := step_abandoned (w := w.move p (.blocked deadline)) relock_stages locked old
  have hwaiting := step_remove (w := (w.move p (.blocked deadline)).move p
    (.removing deadline modified)) relock_stages
  refine ⟨⟨trivial, trivial, ?_, trivial, trivial⟩, w.clock, ?_⟩
  · rw [hblocked, hremoving]
    intro _ seen hstage found hfound
    obtain ⟨-, rfl⟩ := LeaderStage.removing.inj (relock_stages.symm.trans hstage)
    exact (Option.some.inj (locked.symm.trans hfound)).symm
  · simp only [takeOver, ObservedRuns.run_cons, ObservedRuns.run_nil, hblocked, hremoving,
      hwaiting]
    rw [step_create relock_stages rfl]
    exact relock_stages

/-- With no leader left, an instance that waits leads after its next polls, as soon as the file of
a lost one is older than a quarter of an hour when they come. -/
theorem leads_after {deadline now : Time} (waiting : w.stages p = .waiting deadline)
    (nobody : ∀ q, ¬ w.Leads q) (later : w.clock ≤ now)
    (old : ∀ modified ∈ w.lock, abandonedAfter < now - modified) :
    ObservedRuns.Admitted step Admits w (.pass now :: takeOver p) ∧
      (ObservedRuns.run step w (.pass now :: takeOver p)).Leads p := by
  have hpass : w.Admits (.pass now) :=
    ⟨later, fun q since hq => absurd ⟨since, hq⟩ (nobody q)⟩
  have htaken : ObservedRuns.Admitted step Admits (w.step (.pass now)) (takeOver p) ∧
      (ObservedRuns.run step (w.step (.pass now)) (takeOver p)).Leads p := by
    cases hlock : w.lock with
    | none => exact takeOver_unlocked waiting hlock
    | some modified => exact takeOver_abandoned waiting hlock (old modified hlock)
  exact ⟨⟨hpass, htaken.1⟩, htaken.2⟩

/-- However many instances start at once, and however they crash: at most one leads the migration,
the rows of a legacy database end as one migration leaves them, and a lost leader blocks nobody
longer than a quarter of an hour. -/
theorem one_leader_migrates (fresh : .lifecycleState ∉ legacy.columns) {start : Time}
    {events : List StartEvent}
    (admitted : ObservedRuns.Admitted step Admits { table := legacy, clock := start } events)
    {w : StartingFleet F}
    (after : ObservedRuns.run step { table := legacy, clock := start } events = w) :
    (∀ p q, w.Leads p → w.Leads q → p = q) ∧
    (w.table = legacy ∨ ∃ now, w.table.rows = (legacy.migrate now).rows) ∧
    ∀ p deadline now, w.stages p = .waiting deadline → (∀ q, ¬ w.Leads q) → w.clock ≤ now →
      (∀ modified ∈ w.lock, abandonedAfter < now - modified) →
        ObservedRuns.Admitted step Admits w (.pass now :: takeOver p) ∧
          (ObservedRuns.run step w (.pass now :: takeOver p)).Leads p := by
  have hstart : Led legacy ({ table := legacy, clock := start } : StartingFleet F) :=
    ⟨.of_empty fun p ⟨_, h⟩ => LeaderStage.noConfusion h, fun _ => trivial, .inl rfl⟩
  have h : w.Led legacy := by
    rw [← after]
    exact ObservedRuns.run_invariant (fun _ _ hadmits h => h.step fresh hadmits) hstart admitted
  refine ⟨h.guarded.single, ?_, fun p deadline now waiting nobody later old =>
    leads_after waiting nobody later old⟩
  exact h.migrated.imp_right fun ⟨now, hrows, _⟩ => ⟨now, hrows⟩

/-- The first leader is lost in its migration, and the second instance takes the lock over after a
quarter of an hour. -/
def lostLeader : List StartEvent := [
  .ask 0, .ask 1, .attempt 0, .attempt 1, .migrate 0, .crash 0, .pass (minutes 16), .inspect 1,
  .remove 1, .attempt 1, .migrate 1]

theorem one_leader_migrates_lostLeader :
    (ObservedRuns.run step { table := restingTable, clock := 0 } lostLeader).stages 1 =
      .leading (minutes 16) ∧
    ∃ now, (ObservedRuns.run step { table := restingTable, clock := 0 } lostLeader).table.rows =
      (restingTable.migrate now).rows := by
  have hpassed : ∀ q since, (ObservedRuns.run step ({ table := restingTable, clock := 0 } :
      StartingFleet ℚ) (lostLeader.take 6)).stages q ≠ .leading since := by
    intro q since
    by_cases hfirst : q = 0
    · subst hfirst
      exact LeaderStage.noConfusion
    · by_cases hsecond : q = 1
      · subst hsecond
        exact LeaderStage.noConfusion
      · simp [ObservedRuns.run, lostLeader, step, move, relock, hfirst, hsecond]
  have hremoved : (ObservedRuns.run step ({ table := restingTable, clock := 0 } :
      StartingFleet ℚ) (lostLeader.take 8)).stages 1 = .removing patience 0 := by decide +kernel
  have hadmitted : ObservedRuns.Admitted step Admits ({ table := restingTable, clock := 0 } :
      StartingFleet ℚ) lostLeader := by
    refine ⟨trivial, trivial, trivial, trivial, trivial, trivial,
      ⟨show (0 : Time) ≤ minutes 16 by decide, fun q since hq => absurd hq (hpassed q since)⟩,
      trivial, fun deadline seen hstage modified hmodified => ?_, trivial, trivial, trivial⟩
    obtain ⟨-, rfl⟩ := LeaderStage.removing.inj (hremoved.symm.trans hstage)
    exact (Option.some.inj hmodified).symm
  obtain ⟨-, hmigrated, -⟩ := one_leader_migrates (by decide) hadmitted rfl
  refine ⟨by decide +kernel, hmigrated.resolve_left fun h => ?_⟩
  have hcolumns := congrArg (fun table => decide (.lifecycleState ∈ table.columns)) h
  revert hcolumns
  decide +kernel

end StartingFleet

end ProxyFleet
