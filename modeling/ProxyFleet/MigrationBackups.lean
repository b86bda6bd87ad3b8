import ProxyFleet.MigrationLeaders

/-!
# The backup before a migration

An instance that starts copies the database before it asks for the lead of the migration, unless
the marker of the schema says that it was migrated before. Between its look at the marker and its
copy others may migrate, so the copy of the one that migrates need not be the one that counts.
Still nobody changes a legacy database of which there is no copy, and once it is migrated no start
copies it again.
-/
namespace ProxyFleet

open ObservedRuns

variable {F : Type} [F64 F]

/-- Where an instance stands in `backup_before_migrate`. -/
inductive BackupPhase where
  | starting | copying | ready
  deriving DecidableEq

/-- The instances with the marker of the schema, the backups by the second in their names, and how
far each instance is. -/
structure UpgradingFleet (F : Type) where
  fleet : StartingFleet F
  marked : Bool := false
  backups : List (Time × NodesTable F) := []
  phases : ℕ → BackupPhase := fun _ => .starting

/-- An instance looks for the marker, copies the database, and takes part in the election. -/
inductive UpgradeEvent where
  | look (caller : ℕ)
  | copy (caller : ℕ)
  | start (event : StartEvent)

namespace UpgradingFleet

variable (w : UpgradingFleet F)

omit [F64 F] in
/-- The second that a backup is named after. -/
def stamp : Time := w.fleet.clock / seconds 1

omit [F64 F] in
def move (p : ℕ) (phase : BackupPhase) : UpgradingFleet F :=
  { w with phases := Function.update w.phases p phase }

/-- The file of the database is not empty. `VACUUM INTO` refuses a file that exists, and then the
instance does not start. Only one that is through asks for the lead. The marker is written in the
transaction of the migration. -/
def step (w : UpgradingFleet F) : UpgradeEvent → UpgradingFleet F
  | .look p =>
    match w.phases p with
    | .starting => w.move p (if w.marked then .ready else .copying)
    | _ => w
  | .copy p =>
    match w.phases p with
    | .copying =>
      if w.stamp ∈ w.backups.map Prod.fst then w.move p .starting
      else { w.move p .ready with backups := w.backups ++ [(w.stamp, w.fleet.table)] }
    | _ => w
  | .start (.ask p) =>
    match w.phases p with
    | .ready => { w with fleet := w.fleet.step (.ask p) }
    | _ => w
  | .start (.migrate p) =>
    match w.fleet.stages p with
    | .leading _ => { w with fleet := w.fleet.step (.migrate p), marked := true }
    | _ => w
  | .start (.crash p) => { w.move p .starting with fleet := w.fleet.step (.crash p) }
  | .start event => { w with fleet := w.fleet.step event }

/-- There is a backup of the table. -/
def Saved (legacy : NodesTable F) : Prop := ∃ backup ∈ w.backups, backup.2 = legacy

/-- Whoever is through with its backup, and whatever came of it, the legacy table is saved. -/
structure Kept (legacy : NodesTable F) (w : UpgradingFleet F) : Prop where
  table : w.fleet.table = legacy ∨ w.Saved legacy
  ready : ∀ p, w.phases p = .ready → w.Saved legacy
  started : ∀ p, w.fleet.stages p ≠ .away → w.Saved legacy
  marked : w.marked = true → w.Saved legacy
  named : (w.backups.map Prod.fst).Nodup

variable {w} {legacy : NodesTable F} {p : ℕ}

section

omit [F64 F]

theorem started_of_update {stage : LeaderStage} {stages : ℕ → LeaderStage}
    (hstage : stage ≠ .away → stages p ≠ .away) {q : ℕ}
    (h : Function.update stages p stage q ≠ .away) : stages q ≠ .away := by
  by_cases hq : q = p
  · subst hq
    rw [Function.update_self] at h
    exact hstage h
  · rwa [Function.update_of_ne hq] at h

end

/-- Nobody starts by another step than by asking for the lead. -/
theorem started_before {s : StartingFleet F} {event : StartEvent}
    (hevent : ∀ caller, event ≠ .ask caller) {q : ℕ} (h : (s.step event).stages q ≠ .away) :
    s.stages q ≠ .away := by
  cases event with
  | pass now => exact h
  | ask caller => exact absurd rfl (hevent caller)
  | attempt caller =>
    revert h
    rw [StartingFleet.step]
    split
    · next hstage _ => exact started_of_update fun _ => by rw [hstage]; simp
    · next hstage _ => exact started_of_update fun _ => by rw [hstage]; simp
    · exact id
  | inspect caller =>
    revert h
    rw [StartingFleet.step]
    split
    · next hstage =>
      split
      · exact started_of_update fun _ => by rw [hstage]; simp
      · split
        · exact started_of_update fun _ => by rw [hstage]; simp
        · exact started_of_update fun _ => by rw [hstage]; simp
    · exact id
  | remove caller =>
    revert h
    rw [StartingFleet.step]
    split
    · next hstage => exact started_of_update fun _ => by rw [hstage]; simp
    · exact id
  | migrate caller =>
    revert h
    rw [StartingFleet.step]
    split <;> exact id
  | drop caller =>
    revert h
    rw [StartingFleet.step]
    split
    · exact started_of_update fun hstage => absurd rfl hstage
    · exact id
  | crash caller => exact started_of_update (fun hstage => absurd rfl hstage) h

/-- No step but a migration touches the table. -/
theorem table_step {s : StartingFleet F} {event : StartEvent}
    (hevent : ∀ caller, event ≠ .migrate caller) : (s.step event).table = s.table := by
  cases event with
  | migrate caller => exact absurd rfl (hevent caller)
  | pass now => rfl
  | crash caller => rfl
  | ask caller =>
    rw [StartingFleet.step]
    split <;> rfl
  | attempt caller =>
    rw [StartingFleet.step]
    split <;> rfl
  | inspect caller =>
    rw [StartingFleet.step]
    repeat' split
    all_goals rfl
  | remove caller =>
    rw [StartingFleet.step]
    split <;> rfl
  | drop caller =>
    rw [StartingFleet.step]
    split <;> rfl

namespace Kept

/-- A step of the election in which nobody starts and nothing is migrated. -/
theorem elected (h : w.Kept legacy) {event : StartEvent} (hask : ∀ caller, event ≠ .ask caller)
    (hmigrate : ∀ caller, event ≠ .migrate caller) :
    ({ w with fleet := w.fleet.step event } : UpgradingFleet F).Kept legacy where
  table := by
    show (w.fleet.step event).table = legacy ∨ w.Saved legacy
    rw [table_step hmigrate]
    exact h.table
  ready := h.ready
  started p hp := h.started p (started_before hask hp)
  marked := h.marked
  named := h.named

omit [F64 F] in
/-- An instance goes on, and is through only if the table is saved. -/
theorem moved (h : w.Kept legacy) (p : ℕ) {phase : BackupPhase}
    (hphase : phase = .ready → w.Saved legacy) : (w.move p phase).Kept legacy := by
  refine ⟨h.table, fun q hq => ?_, h.started, h.marked, h.named⟩
  have hq : Function.update w.phases p phase q = .ready := hq
  by_cases hcaller : q = p
  · subst hcaller
    rw [Function.update_self] at hq
    exact hphase hq
  · rw [Function.update_of_ne hcaller] at hq
    exact h.ready q hq

omit [F64 F] in
/-- A copy of the table is made while the table is what it was, or after another copy. -/
theorem copied (h : w.Kept legacy) (p : ℕ) (hname : w.stamp ∉ w.backups.map Prod.fst) :
    Kept legacy { w.move p .ready with backups := w.backups ++ [(w.stamp, w.fleet.table)] } := by
  have hsaved : ∃ backup ∈ w.backups ++ [(w.stamp, w.fleet.table)], backup.2 = legacy := by
    rcases h.table with hlegacy | ⟨old, hold, hsame⟩
    · exact ⟨_, List.mem_append_right _ List.mem_cons_self, hlegacy⟩
    · exact ⟨old, List.mem_append_left _ hold, hsame⟩
  refine ⟨.inr hsaved, fun _ _ => hsaved, fun _ _ => hsaved, fun _ => hsaved, ?_⟩
  rw [List.map_append]
  refine List.nodup_append.mpr ⟨h.named, List.nodup_singleton _, ?_⟩
  intro name hmem other hother hsame
  have hstamp : other = w.stamp := by simpa using hother
  rw [hsame, hstamp] at hmem
  exact hname hmem

/-- No step loses what is kept. -/
theorem step (h : w.Kept legacy) (event : UpgradeEvent) : (w.step event).Kept legacy := by
  cases event with
  | look p =>
    simp only [UpgradingFleet.step]
    split
    · refine h.moved p fun hready => ?_
      split at hready
      · next hmarked => exact h.marked hmarked
      · cases hready
    · exact h
  | copy p =>
    simp only [UpgradingFleet.step]
    split
    · split
      · exact h.moved p (by simp)
      · next hname => exact h.copied p hname
    · exact h
  | start event =>
    cases event with
    | ask p =>
      simp only [UpgradingFleet.step]
      split
      · next hready =>
        have hsaved := h.ready p hready
        exact ⟨.inr hsaved, h.ready, fun _ _ => hsaved, h.marked, h.named⟩
      · exact h
    | migrate p =>
      simp only [UpgradingFleet.step]
      split
      · next hleading =>
        have hsaved := h.started p (by rw [hleading]; simp)
        exact ⟨.inr hsaved, h.ready, fun _ _ => hsaved, fun _ => hsaved, h.named⟩
      · exact h
    | crash p =>
      have hmoved : (w.move p .starting).Kept legacy := h.moved p (by simp)
      show Kept legacy { w.move p .starting with fleet := w.fleet.step (.crash p) }
      exact hmoved.elected (by simp) (by simp)
    | pass now => exact h.elected (by simp) (by simp)
    | attempt p => exact h.elected (by simp) (by simp)
    | inspect p => exact h.elected (by simp) (by simp)
    | remove p => exact h.elected (by simp) (by simp)
    | drop p => exact h.elected (by simp) (by simp)

end Kept

omit [F64 F] in
/-- The migration is through, and so is everybody who found no marker. -/
def Finished (w : UpgradingFleet F) : Prop := w.marked = true ∧ ∀ p, w.phases p ≠ .copying

omit [F64 F] in
theorem Finished.move (h : w.Finished) (p : ℕ) {phase : BackupPhase} (hphase : phase ≠ .copying) :
    (w.move p phase).Finished :=
  ⟨h.1, (Function.forall_update_iff w.phases fun _ phase => phase ≠ .copying).mpr
    ⟨hphase, fun q _ => h.2 q⟩⟩

/-- A step adds backups behind those that exist, and none once the migration is through. -/
theorem backups_step (w : UpgradingFleet F) (event : UpgradeEvent) :
    w.backups <+: (w.step event).backups ∧
      (w.Finished → (w.step event).Finished ∧ (w.step event).backups = w.backups) := by
  cases event with
  | look p =>
    simp only [step]
    split
    · refine ⟨List.prefix_refl _, fun h => ⟨h.move p ?_, rfl⟩⟩
      rw [if_pos h.1]
      simp
    · exact ⟨List.prefix_refl _, fun h => ⟨h, rfl⟩⟩
  | copy p =>
    simp only [step]
    split
    · next hcopying =>
      split
      · exact ⟨List.prefix_refl _, fun h => absurd hcopying (h.2 p)⟩
      · exact ⟨List.prefix_append _ _, fun h => absurd hcopying (h.2 p)⟩
    · exact ⟨List.prefix_refl _, fun h => ⟨h, rfl⟩⟩
  | start event =>
    cases event with
    | ask p =>
      simp only [step]
      split <;> exact ⟨List.prefix_refl _, fun h => ⟨h, rfl⟩⟩
    | migrate p =>
      simp only [step]
      split
      · exact ⟨List.prefix_refl _, fun h => ⟨⟨rfl, h.2⟩, rfl⟩⟩
      · exact ⟨List.prefix_refl _, fun h => ⟨h, rfl⟩⟩
    | crash p => exact ⟨List.prefix_refl _, fun h => ⟨h.move p (by simp), rfl⟩⟩
    | _ => exact ⟨List.prefix_refl _, fun h => ⟨h, rfl⟩⟩

/-- However the instances start, are lost and start again, and even if two of them lead at once:
a legacy table that is no longer as it was is in a backup, backups have names of their own and are
never lost, and once the migration is through nobody who starts makes another one. -/
theorem legacy_backed_up (legacy : NodesTable F) (start : Time) (events : List UpgradeEvent) :
    let w := run step { fleet := { table := legacy, clock := start } } events
    (w.fleet.table ≠ legacy → ∃ backup ∈ w.backups, backup.2 = legacy) ∧
    (w.backups.map Prod.fst).Nodup ∧
    ∀ more, w.backups <+: (run step w more).backups ∧
      (w.Finished → (run step w more).backups = w.backups) := by
  intro w
  have hstart : Kept legacy ({ fleet := { table := legacy, clock := start } } : UpgradingFleet F) :=
    ⟨.inl rfl, fun _ h => by simp at h, fun _ h => absurd rfl h, fun h => by simp at h,
      List.nodup_nil⟩
  have hkept : w.Kept legacy := run_preserves (fun _ event h => h.step event) hstart events
  refine ⟨fun hchanged => hkept.table.resolve_left hchanged, hkept.named, fun more => ⟨?_, ?_⟩⟩
  · exact run_preserves (I := fun later : UpgradingFleet F => w.backups <+: later.backups)
      (fun later event h => h.trans (backups_step later event).1) (List.prefix_refl _) more
  · intro hfinished
    refine (run_preserves (I := fun later : UpgradingFleet F =>
      later.Finished ∧ later.backups = w.backups) (fun later event h => ?_)
        ⟨hfinished, rfl⟩ more).2
    obtain ⟨hstill, hsame⟩ := (backups_step later event).2 h.1
    exact ⟨hstill, hsame.trans h.2⟩

/-- Two instances start in one second. The second one finds the name taken, starts again, and is
the one that migrates. -/
def twoStarts : List UpgradeEvent := [
  .look 0, .look 1, .copy 0, .copy 1, .start (.pass (seconds 1)), .look 1, .copy 1,
  .start (.ask 0), .start (.ask 1), .start (.attempt 1), .start (.migrate 1)]

theorem legacy_backed_up_twoStarts :
    ∃ backup ∈ (run step { fleet := { table := restingTable, clock := 0 } } twoStarts).backups,
      backup.2 = restingTable := by
  refine (legacy_backed_up restingTable 0 twoStarts).1 fun hsame => ?_
  have hcolumns := congrArg (fun table => decide (.lifecycleState ∈ table.columns)) hsame
  revert hcolumns
  decide +kernel

end UpgradingFleet

end ProxyFleet
