import ProxyFleet.ClaimScheduling

/-!
# Migration of a legacy database

The migration adds the columns that `nodes` lacks, each with its default, and then runs a
fixed list of updates over the rows. A column counts as present or not by the schema
before the first addition, and a row of an added column holds the default. The updates are
meant to carry the legacy status over into the lifecycle state and to seed the evidence.
-/
namespace ProxyFleet

variable {F : Type}

/-- The texts of a state column that the statements tell apart. -/
inductive StoredState where
  | lifecycle (state : LifecycleState)
  | dead | removed | blank
  deriving DecidableEq, Repr

/-- The columns that a migration adds, in the order of their addition. -/
inductive NodeColumn where
  | nextTestAt | lifecycleState | stateEnteredAt | structurallyValid | healthAlpha | healthBeta
  | healthScore | evidenceUpdatedAt | testingFromState | waitingFromState | testLeaseUntil
  | publicationLeaseUntil | publicationLeaseKind | activatedAt | lastSuccessAt
  | lastRealDownloadAt | lastFailureAt | lastFailureClass | lastFailureRunId | successStreak
  | lastDownloadTestAt | failureStreak | independentFailureCount | lastTestEndpoint | exitIp
  | exitHostname | exitCity | exitRegion | exitLoc | exitOrg | exitPostal | exitTimezone
  | exitInfoJson | exitInfoFetchedAt | metadataLeaseUntil | lastSeenGeneration
  | upstreamMissingGenerations | retiredAt | tombstoneUntil
  deriving DecidableEq, Repr

def nodeAdditions : List NodeColumn := [
  .nextTestAt, .lifecycleState, .stateEnteredAt, .structurallyValid, .healthAlpha, .healthBeta,
  .healthScore, .evidenceUpdatedAt, .testingFromState, .waitingFromState, .testLeaseUntil,
  .publicationLeaseUntil, .publicationLeaseKind, .activatedAt, .lastSuccessAt,
  .lastRealDownloadAt, .lastFailureAt, .lastFailureClass, .lastFailureRunId, .successStreak,
  .lastDownloadTestAt, .failureStreak, .independentFailureCount, .lastTestEndpoint, .exitIp,
  .exitHostname, .exitCity, .exitRegion, .exitLoc, .exitOrg, .exitPostal, .exitTimezone,
  .exitInfoJson, .exitInfoFetchedAt, .metadataLeaseUntil, .lastSeenGeneration,
  .upstreamMissingGenerations, .retiredAt, .tombstoneUntil]

theorem mem_nodeAdditions (c : NodeColumn) : c ∈ nodeAdditions := by
  cases c <;> decide

/-- A row of `nodes` on disk. An older schema may leave any of the added columns without
`NOT NULL`. -/
structure StoredNode (F : Type) where
  id : String
  configHash : String
  rawConfig : Text
  sourceSubs : List String
  status : StoredState
  mainPort : Option ℕ := none
  relayDelayMs : Option ℤ := none
  downloadKbps : Option ℤ := none
  createdAt : Time
  lastTestAt : Option Time := none
  nextTestAt : Option Time := none
  lifecycleState : Option StoredState := none
  stateEnteredAt : Option Time := none
  structurallyValid : Option Bool := none
  healthAlpha : Option F := none
  healthBeta : Option F := none
  healthScore : Option F := none
  evidenceUpdatedAt : Option Time := none
  testingFromState : Option LifecycleState := none
  waitingFromState : Option LifecycleState := none
  testLeaseUntil : Option Time := none
  publicationLeaseUntil : Option Time := none
  publicationLeaseKind : Option String := none
  activatedAt : Option Time := none
  lastSuccessAt : Option Time := none
  lastRealDownloadAt : Option Time := none
  lastFailureAt : Option Time := none
  lastFailureClass : Option FailureClass := none
  lastFailureRunId : Option String := none
  successStreak : Option ℤ := none
  lastDownloadTestAt : Option Time := none
  failureStreak : Option ℤ := none
  independentFailureCount : Option ℤ := none
  lastTestEndpoint : Option String := none
  exitIp : Option String := none
  exitHostname : Option String := none
  exitCity : Option String := none
  exitRegion : Option String := none
  exitLoc : Option String := none
  exitOrg : Option String := none
  exitPostal : Option String := none
  exitTimezone : Option String := none
  exitInfoJson : Option String := none
  exitInfoFetchedAt : Option Time := none
  metadataLeaseUntil : Option Time := none
  lastSeenGeneration : Option ℤ := none
  upstreamMissingGenerations : Option ℤ := none
  retiredAt : Option Time := none
  tombstoneUntil : Option Time := none

/-- The table `nodes`, with those of the added columns that it has. -/
structure NodesTable (F : Type) where
  columns : List NodeColumn
  rows : List (StoredNode F)

section Additions

variable [F64 F]

/-- A row after `ALTER TABLE nodes ADD COLUMN`, with the default of the definition. -/
def StoredNode.addColumn (row : StoredNode F) : NodeColumn → StoredNode F
  | .nextTestAt => { row with nextTestAt := none }
  | .lifecycleState => { row with lifecycleState := some (.lifecycle .candidate) }
  | .stateEnteredAt => { row with stateEnteredAt := none }
  | .structurallyValid => { row with structurallyValid := some true }
  | .healthAlpha => { row with healthAlpha := some (F64.ofRat 1) }
  | .healthBeta => { row with healthBeta := some (F64.ofRat 1) }
  | .healthScore => { row with healthScore := some (F64.ofRat (1 / 2)) }
  | .evidenceUpdatedAt => { row with evidenceUpdatedAt := none }
  | .testingFromState => { row with testingFromState := none }
  | .waitingFromState => { row with waitingFromState := none }
  | .testLeaseUntil => { row with testLeaseUntil := none }
  | .publicationLeaseUntil => { row with publicationLeaseUntil := none }
  | .publicationLeaseKind => { row with publicationLeaseKind := none }
  | .activatedAt => { row with activatedAt := none }
  | .lastSuccessAt => { row with lastSuccessAt := none }
  | .lastRealDownloadAt => { row with lastRealDownloadAt := none }
  | .lastFailureAt => { row with lastFailureAt := none }
  | .lastFailureClass => { row with lastFailureClass := none }
  | .lastFailureRunId => { row with lastFailureRunId := none }
  | .successStreak => { row with successStreak := some 0 }
  | .lastDownloadTestAt => { row with lastDownloadTestAt := none }
  | .failureStreak => { row with failureStreak := some 0 }
  | .independentFailureCount => { row with independentFailureCount := some 0 }
  | .lastTestEndpoint => { row with lastTestEndpoint := none }
  | .exitIp => { row with exitIp := some "" }
  | .exitHostname => { row with exitHostname := some "" }
  | .exitCity => { row with exitCity := some "" }
  | .exitRegion => { row with exitRegion := some "" }
  | .exitLoc => { row with exitLoc := some "" }
  | .exitOrg => { row with exitOrg := some "" }
  | .exitPostal => { row with exitPostal := some "" }
  | .exitTimezone => { row with exitTimezone := some "" }
  | .exitInfoJson => { row with exitInfoJson := some "\x7b\x7d" }
  | .exitInfoFetchedAt => { row with exitInfoFetchedAt := none }
  | .metadataLeaseUntil => { row with metadataLeaseUntil := none }
  | .lastSeenGeneration => { row with lastSeenGeneration := none }
  | .upstreamMissingGenerations => { row with upstreamMissingGenerations := some 0 }
  | .retiredAt => { row with retiredAt := none }
  | .tombstoneUntil => { row with tombstoneUntil := none }

def NodesTable.addColumn (t : NodesTable F) (c : NodeColumn) : NodesTable F where
  columns := t.columns ++ [c]
  rows := t.rows.map (·.addColumn c)

/-- The existing columns are read once, before the additions. -/
def NodesTable.addColumns (t : NodesTable F) : NodesTable F :=
  nodeAdditions.foldl (fun u c => if c ∈ t.columns then u else u.addColumn c) t

/-- A row after the additions to a table with these columns. -/
def StoredNode.addColumns (row : StoredNode F) (existing : List NodeColumn) : StoredNode F :=
  nodeAdditions.foldl (fun row c => if c ∈ existing then row else row.addColumn c) row

/-- The additions change every row for itself, and leave no column out. -/
theorem NodesTable.addColumns_eq (t : NodesTable F) :
    t.addColumns.rows = t.rows.map (·.addColumns t.columns) ∧
      ∀ c, c ∈ t.addColumns.columns := by
  have hfold : ∀ (additions : List NodeColumn) (u : NodesTable F),
      (∀ c ∈ t.columns, c ∈ u.columns) →
      (additions.foldl (fun u c => if c ∈ t.columns then u else u.addColumn c) u).rows =
        u.rows.map (fun row => additions.foldl
          (fun row c => if c ∈ t.columns then row else row.addColumn c) row) ∧
      ∀ c, c ∈ u.columns ∨ c ∈ additions →
        c ∈ (additions.foldl
          (fun u c => if c ∈ t.columns then u else u.addColumn c) u).columns := by
    intro additions
    induction additions with
    | nil =>
      intro u _
      exact ⟨(List.map_id' u.rows).symm, fun c hc => hc.resolve_right List.not_mem_nil⟩
    | cons first rest ih =>
      intro u hu
      simp only [List.foldl_cons]
      by_cases hfirst : first ∈ t.columns
      · simp only [if_pos hfirst]
        refine ⟨(ih u hu).1, fun c hc => (ih u hu).2 c ?_⟩
        rcases hc with hc | hc
        · exact .inl hc
        · rcases List.mem_cons.mp hc with rfl | hc
          · exact .inl (hu _ hfirst)
          · exact .inr hc
      · simp only [if_neg hfirst]
        have hadded : ∀ c ∈ t.columns, c ∈ (u.addColumn first).columns :=
          fun c hc => List.mem_append_left _ (hu c hc)
        refine ⟨?_, fun c hc => (ih _ hadded).2 c ?_⟩
        · rw [(ih _ hadded).1, NodesTable.addColumn, List.map_map]
          rfl
        · rcases hc with hc | hc
          · exact .inl (List.mem_append_left _ hc)
          · rcases List.mem_cons.mp hc with rfl | hc
            · exact .inl (List.mem_append_right _ (List.mem_singleton.mpr rfl))
            · exact .inr hc
  exact ⟨(hfold nodeAdditions t fun _ hc => hc).1,
    fun c => (hfold nodeAdditions t fun _ hc => hc).2 c (.inr (mem_nodeAdditions c))⟩

/-- An added column holds its default, a present one what it held. -/
theorem StoredNode.addColumns_column {α : Type*} (column : StoredNode F → α) (c : NodeColumn)
    {default : α} (added : ∀ row : StoredNode F, column (row.addColumn c) = default)
    (kept : ∀ (row : StoredNode F) (other : NodeColumn), other ≠ c →
      column (row.addColumn other) = column row)
    (row : StoredNode F) (existing : List NodeColumn) :
    column (row.addColumns existing) = if c ∈ existing then column row else default := by
  have hfold : ∀ (additions : List NodeColumn) (row : StoredNode F),
      column (additions.foldl
        (fun row c => if c ∈ existing then row else row.addColumn c) row) =
          if c ∈ additions ∧ c ∉ existing then default else column row := by
    intro additions
    induction additions with
    | nil => simp
    | cons first rest ih =>
      intro row
      rw [List.foldl_cons, ih]
      by_cases hfirst : first = c
      · subst hfirst
        by_cases hexisting : first ∈ existing <;> simp [hexisting, added]
      · have hrow : column (if first ∈ existing then row else row.addColumn first) =
            column row := by
          split
          · rfl
          · exact kept row first hfirst
        rw [hrow]
        simp [Ne.symm hfirst]
  rw [StoredNode.addColumns, hfold]
  by_cases hexisting : c ∈ existing <;> simp [hexisting, mem_nodeAdditions]

/-- A column of the legacy schema stays as it is. -/
theorem StoredNode.addColumns_kept {α : Type*} (column : StoredNode F → α)
    (kept : ∀ (row : StoredNode F) (c : NodeColumn), column (row.addColumn c) = column row)
    (row : StoredNode F) (existing : List NodeColumn) :
    column (row.addColumns existing) = column row := by
  unfold StoredNode.addColumns
  generalize nodeAdditions = additions
  induction additions generalizing row with
  | nil => rfl
  | cons first rest ih =>
    rw [List.foldl_cons, ih]
    split
    · rfl
    · exact kept row first

/-- No column is added to a table that has them all. -/
theorem StoredNode.addColumns_of_complete (row : StoredNode F) {existing : List NodeColumn}
    (complete : ∀ c, c ∈ existing) : row.addColumns existing = row := by
  unfold StoredNode.addColumns
  generalize nodeAdditions = additions
  induction additions with
  | nil => rfl
  | cons first rest ih => rwa [List.foldl_cons, if_pos (complete first)]

end Additions

section Updates

variable [F64 F]

/-- The prior weights of a state. -/
def priorAlpha : Option StoredState → F
  | some (.lifecycle .active) => F64.ofRat 8
  | some (.lifecycle .probation) => F64.ofRat 3
  | _ => F64.ofRat 1

def priorBeta : Option StoredState → F
  | some (.lifecycle .active) => F64.ofRat 1
  | some (.lifecycle .probation) => F64.ofRat 2
  | _ => F64.ofRat 1

/-- A weight is `NULL` or not positive. -/
def unweighted (weight : Option F) : Bool := weight.all fun x => F64.le x (F64.ofRat 0)

/-- A score is `NULL` or no probability. -/
def unscored (score : Option F) : Bool :=
  score.all fun x => F64.lt x (F64.ofRat 0) || F64.lt (F64.ofRat 1) x

namespace StoredNode

variable (row : StoredNode F)

/-- An older status overrides the default of a state column that was only just added. -/
def mapLegacyStatus : StoredNode F :=
  { row with
    lifecycleState :=
      if row.status = .dead ∨ row.status = .removed ∨ row.lifecycleState = none ∨
          row.lifecycleState = some .blank then
        match row.status with
        | .dead => some (.lifecycle .dormant)
        | .removed => some (.lifecycle .retired)
        | _ => row.lifecycleState
      else row.lifecycleState }

def alignStatus : StoredNode F :=
  { row with
    status :=
      match row.lifecycleState with
      | some (.lifecycle state) =>
        if (state = .dormant ∨ state = .retired ∨ state = .invalid) ∧
            (row.status = .dead ∨ row.status = .removed) then .lifecycle state
        else row.status
      | _ => row.status }

def seedAlpha : StoredNode F :=
  { row with
    healthAlpha :=
      if unweighted row.healthAlpha then some (priorAlpha row.lifecycleState)
      else row.healthAlpha }

def seedBeta : StoredNode F :=
  { row with
    healthBeta :=
      if unweighted row.healthBeta then some (priorBeta row.lifecycleState)
      else row.healthBeta }

/-- The quotient of `NULL` is `NULL`. -/
def seedScore : StoredNode F :=
  { row with
    healthScore :=
      if unscored row.healthScore then
        row.healthAlpha.bind fun alpha =>
          row.healthBeta.map fun beta => F64.div alpha (F64.add alpha beta)
      else row.healthScore }

def seedValidity : StoredNode F :=
  { row with
    structurallyValid :=
      if row.structurallyValid = none then
        some (decide (row.lifecycleState ≠ some (.lifecycle .invalid)))
      else row.structurallyValid }

def seedRealDownload : StoredNode F :=
  { row with
    lastRealDownloadAt :=
      if row.lastRealDownloadAt = none ∧ row.lastDownloadTestAt ≠ none then
        row.lastDownloadTestAt
      else row.lastRealDownloadAt }

/-- The last download test is at most a day old. -/
def recentlyDownloaded (now : Time) : Bool :=
  row.lastDownloadTestAt.any fun time => decide (now - hours 24 ≤ time)

def seedLease (now : Time) : StoredNode F :=
  { row with
    publicationLeaseUntil :=
      if row.lifecycleState = some (.lifecycle .active) ∧ row.publicationLeaseUntil = none ∧
          row.recentlyDownloaded now then some (now + hours 6)
      else row.publicationLeaseUntil }

/-- The updates, in the order of the migration. -/
def applyUpdates (now : Time) : StoredNode F :=
  row.mapLegacyStatus.alignStatus.seedAlpha.seedBeta.seedScore.seedValidity.seedRealDownload
    |>.seedLease now

end StoredNode

/-- An update of every row for itself. -/
def NodesTable.update (t : NodesTable F) (f : StoredNode F → StoredNode F) : NodesTable F :=
  { t with rows := t.rows.map f }

def NodesTable.migrate (t : NodesTable F) (now : Time) : NodesTable F :=
  t.addColumns
    |>.update StoredNode.mapLegacyStatus
    |>.update StoredNode.alignStatus
    |>.update StoredNode.seedAlpha
    |>.update StoredNode.seedBeta
    |>.update StoredNode.seedScore
    |>.update StoredNode.seedValidity
    |>.update StoredNode.seedRealDownload
    |>.update (StoredNode.seedLease · now)

theorem NodesTable.migrate_rows (t : NodesTable F) (now : Time) :
    (t.migrate now).rows =
      t.rows.map fun row => (row.addColumns t.columns).applyUpdates now := by
  simp only [NodesTable.migrate, NodesTable.update, t.addColumns_eq.1, List.map_map,
    Function.comp_def, StoredNode.applyUpdates]

theorem NodesTable.migrate_columns (t : NodesTable F) (now : Time) (c : NodeColumn) :
    c ∈ (t.migrate now).columns := by
  simp only [NodesTable.migrate, NodesTable.update]
  exact t.addColumns_eq.2 c

end Updates

section Rows

variable [F64 F] {row : StoredNode F}

/-- The state that a legacy status stands for in a column that was only just added. -/
def carriedState : StoredState → LifecycleState
  | .dead => .dormant
  | .removed => .retired
  | _ => .candidate

theorem carriedState_ne_active (status : StoredState) : carriedState status ≠ .active := by
  cases status <;> simp [carriedState]

namespace StoredNode

omit [F64 F] in
/-- The default is overridden by the two statuses that have another name now, and by no other. -/
theorem mapLegacyStatus_of_candidate
    (fresh : row.lifecycleState = some (.lifecycle .candidate)) :
    row.mapLegacyStatus.lifecycleState = some (.lifecycle (carriedState row.status)) := by
  unfold mapLegacyStatus
  rw [fresh]
  cases row.status <;> simp [carriedState]

omit [F64 F] in
theorem alignStatus_of_candidate (fresh : row.lifecycleState = some (.lifecycle .candidate)) :
    row.mapLegacyStatus.alignStatus.status ≠ .dead ∧
      row.mapLegacyStatus.alignStatus.status ≠ .removed := by
  have hstate := mapLegacyStatus_of_candidate fresh
  have hstatus : row.mapLegacyStatus.status = row.status := rfl
  unfold alignStatus
  rw [hstate, hstatus]
  cases row.status <;> simp [carriedState]

omit [F64 F] in
/-- Another status stays as it is. -/
theorem alignStatus_of_ne (dead : row.status ≠ .dead) (removed : row.status ≠ .removed) :
    row.alignStatus = row := by
  have hkept : row.alignStatus.status = row.status := by
    unfold alignStatus
    cases row.lifecycleState with
    | none => rfl
    | some state => cases state <;> simp [dead, removed]
  calc row.alignStatus = { row with status := row.alignStatus.status } := rfl
    _ = { row with status := row.status } := by rw [hkept]
    _ = row := rfl

section Columns

variable (row : StoredNode F) (now : Time)

/-- A column that no update sets. -/
theorem applyUpdates_kept {α : Type*} (column : StoredNode F → α)
    (mapped : ∀ row, column (mapLegacyStatus row) = column row)
    (aligned : ∀ row, column (alignStatus row) = column row)
    (alpha : ∀ row, column (seedAlpha row) = column row)
    (beta : ∀ row, column (seedBeta row) = column row)
    (score : ∀ row, column (seedScore row) = column row)
    (validity : ∀ row, column (seedValidity row) = column row)
    (download : ∀ row, column (seedRealDownload row) = column row)
    (lease : ∀ row, column (seedLease row now) = column row) :
    column (row.applyUpdates now) = column row := by
  rw [applyUpdates, lease, download, validity, score, beta, alpha, aligned, mapped]

theorem applyUpdates_lifecycleState :
    (row.applyUpdates now).lifecycleState = row.mapLegacyStatus.lifecycleState := by
  simp only [applyUpdates, seedLease, seedRealDownload, seedValidity, seedScore, seedBeta,
    seedAlpha, alignStatus]

theorem applyUpdates_status :
    (row.applyUpdates now).status = row.mapLegacyStatus.alignStatus.status := by
  simp only [applyUpdates, seedLease, seedRealDownload, seedValidity, seedScore, seedBeta,
    seedAlpha]

theorem applyUpdates_healthAlpha : (row.applyUpdates now).healthAlpha =
    if unweighted row.healthAlpha then some (priorAlpha (row.applyUpdates now).lifecycleState)
    else row.healthAlpha := by
  simp only [applyUpdates, seedLease, seedRealDownload, seedValidity, seedScore, seedBeta,
    seedAlpha, alignStatus, mapLegacyStatus]
  rfl

theorem applyUpdates_healthBeta : (row.applyUpdates now).healthBeta =
    if unweighted row.healthBeta then some (priorBeta (row.applyUpdates now).lifecycleState)
    else row.healthBeta := by
  simp only [applyUpdates, seedLease, seedRealDownload, seedValidity, seedScore, seedBeta,
    seedAlpha, alignStatus, mapLegacyStatus]
  rfl

theorem applyUpdates_healthScore : (row.applyUpdates now).healthScore =
    if unscored row.healthScore then
      (row.applyUpdates now).healthAlpha.bind fun alpha =>
        (row.applyUpdates now).healthBeta.map fun beta => F64.div alpha (F64.add alpha beta)
    else row.healthScore := by
  simp only [applyUpdates, seedLease, seedRealDownload, seedValidity, seedScore, seedBeta,
    seedAlpha, alignStatus, mapLegacyStatus]
  rfl

theorem applyUpdates_structurallyValid : (row.applyUpdates now).structurallyValid =
    if row.structurallyValid = none then
      some (decide ((row.applyUpdates now).lifecycleState ≠ some (.lifecycle .invalid)))
    else row.structurallyValid := by
  simp only [applyUpdates, seedLease, seedRealDownload, seedValidity, seedScore, seedBeta,
    seedAlpha, alignStatus, mapLegacyStatus]
  rfl

theorem applyUpdates_lastDownloadTestAt :
    (row.applyUpdates now).lastDownloadTestAt = row.lastDownloadTestAt :=
  row.applyUpdates_kept now (·.lastDownloadTestAt) (fun _ => rfl) (fun _ => rfl) (fun _ => rfl)
    (fun _ => rfl) (fun _ => rfl) (fun _ => rfl) (fun _ => rfl) (fun _ => rfl)

theorem applyUpdates_lastRealDownloadAt : (row.applyUpdates now).lastRealDownloadAt =
    if row.lastRealDownloadAt = none ∧ row.lastDownloadTestAt ≠ none then
      row.lastDownloadTestAt
    else row.lastRealDownloadAt := by
  obtain ⟨earlier, hearlier⟩ : ∃ earlier,
      row.mapLegacyStatus.alignStatus.seedAlpha.seedBeta.seedScore.seedValidity = earlier :=
    ⟨_, rfl⟩
  have hreal : earlier.lastRealDownloadAt = row.lastRealDownloadAt := by
    rw [← hearlier]
    rfl
  have htested : earlier.lastDownloadTestAt = row.lastDownloadTestAt := by
    rw [← hearlier]
    rfl
  rw [applyUpdates, hearlier, ← hreal, ← htested]
  rfl

end Columns

/-- A row that every update leaves as it is, whenever it runs. -/
structure Settled (row : StoredNode F) : Prop where
  mapped : row.mapLegacyStatus = row
  aligned : row.alignStatus = row
  alpha : row.seedAlpha = row
  beta : row.seedBeta = row
  score : row.seedScore = row
  validity : row.seedValidity = row
  download : row.seedRealDownload = row
  lease : ∀ now, row.seedLease now = row

theorem Settled.applyUpdates (h : row.Settled) (now : Time) : row.applyUpdates now = row := by
  rw [StoredNode.applyUpdates, h.mapped, h.aligned, h.alpha, h.beta, h.score, h.validity,
    h.download, h.lease]

/-- An update that fills a column again fills it with what it holds. -/
theorem fill_again {α : Type*} (missing : Option α → Bool) (value stored : Option α) :
    (if missing (if missing stored then value else stored) then value
      else if missing stored then value else stored) =
        if missing stored then value else stored := by
  by_cases hmissing : missing stored
  · simp [hmissing]
  · simp [hmissing]

/-- A row whose state column was only just added is settled after the updates. -/
theorem settled_applyUpdates (fresh : row.lifecycleState = some (.lifecycle .candidate))
    (now : Time) : (row.applyUpdates now).Settled := by
  have hstate := (row.applyUpdates_lifecycleState now).trans (mapLegacyStatus_of_candidate fresh)
  have hstatus := alignStatus_of_candidate fresh
  rw [← row.applyUpdates_status now] at hstatus
  have halpha := row.applyUpdates_healthAlpha now
  have hbeta := row.applyUpdates_healthBeta now
  have hscore := row.applyUpdates_healthScore now
  have hvalid := row.applyUpdates_structurallyValid now
  have htested := row.applyUpdates_lastDownloadTestAt now
  have hreal := row.applyUpdates_lastRealDownloadAt now
  generalize row.applyUpdates now = after at *
  constructor
  case mapped =>
    unfold mapLegacyStatus
    rw [if_neg (by simp [hstatus.1, hstatus.2, hstate])]
  case aligned => exact alignStatus_of_ne hstatus.1 hstatus.2
  case alpha =>
    unfold seedAlpha
    rw [halpha, fill_again, ← halpha]
  case beta =>
    unfold seedBeta
    rw [hbeta, fill_again, ← hbeta]
  case score =>
    unfold seedScore
    rw [hscore, fill_again, ← hscore]
  case validity =>
    unfold seedValidity
    rw [if_neg]
    rw [hvalid]
    split
    · exact fun h => nomatch h
    · assumption
  case download =>
    unfold seedRealDownload
    rw [if_neg]
    rintro ⟨hnone, hsome⟩
    rw [htested] at hsome
    rw [hreal] at hnone
    split at hnone
    · exact hsome hnone
    · rename_i hkept
      exact hkept ⟨hnone, hsome⟩
  case lease =>
    intro later
    unfold seedLease
    rw [if_neg]
    rintro ⟨hactive, -⟩
    rw [hstate] at hactive
    exact carriedState_ne_active _ (StoredState.lifecycle.inj (Option.some.inj hactive))

end StoredNode

end Rows

section Preservation

variable [F64 F]

namespace StoredNode

/-- The row stands in a state from which a test is claimed. -/
def Claimable (row : StoredNode F) : Prop :=
  ∃ state ∈ queueStates, row.lifecycleState = some (.lifecycle state) ∨
    row.lifecycleState = some (.lifecycle .waitingForPort) ∧ row.waitingFromState = some state

/-- What is to become of a row with a legacy status. -/
def MappedFrom (row : StoredNode F) : StoredState → Prop
  | .lifecycle .candidate => row.lifecycleState = some (.lifecycle .candidate)
  | .lifecycle .active => row.lifecycleState = some (.lifecycle .active)
  | .lifecycle .probation => row.lifecycleState = some (.lifecycle .probation)
  | .lifecycle .testing | .lifecycle .waitingForPort => row.Claimable
  | .dead => row.lifecycleState = some (.lifecycle .dormant)
  | .removed => row.lifecycleState = some (.lifecycle .retired)
  | _ => True

/-- What a migration keeps of a row and what it gives to it. A positive weight in a column
that the table had stands in the place of the prior. -/
structure Preserved (columns : List NodeColumn) (now : Time) (old new : StoredNode F) : Prop where
  id : new.id = old.id
  configHash : new.configHash = old.configHash
  rawConfig : new.rawConfig = old.rawConfig
  mapped : new.MappedFrom old.status
  alpha : new.healthAlpha =
    if .healthAlpha ∈ columns ∧ unweighted old.healthAlpha = false then old.healthAlpha
    else some (priorAlpha new.lifecycleState)
  beta : new.healthBeta =
    if .healthBeta ∈ columns ∧ unweighted old.healthBeta = false then old.healthBeta
    else some (priorBeta new.lifecycleState)
  leased : old.status = .lifecycle .active → .lastDownloadTestAt ∈ columns →
    old.recentlyDownloaded now = true → new.publicationLeaseUntil ≠ none

end StoredNode

/-- Every row is preserved in its place, and a second migration changes none. -/
structure NodesTable.PreservedByMigration (t : NodesTable F) (now : Time) : Prop where
  rows : List.Forall₂ (StoredNode.Preserved t.columns now) t.rows (t.migrate now).rows
  again : ∀ later, ((t.migrate now).migrate later).rows = (t.migrate now).rows

variable {row : StoredNode F} {columns : List NodeColumn}

theorem priorAlpha_carriedState (status : StoredState) :
    (priorAlpha (some (.lifecycle (carriedState status))) : F) = F64.ofRat 1 := by
  cases status <;> rfl

theorem priorBeta_carriedState (status : StoredState) :
    (priorBeta (some (.lifecycle (carriedState status))) : F) = F64.ofRat 1 := by
  cases status <;> rfl

namespace StoredNode

/-- A state column that the table lacked starts with its default. -/
theorem lifecycleState_addColumns (legacy : .lifecycleState ∉ columns) :
    (row.addColumns columns).lifecycleState = some (.lifecycle .candidate) := by
  rw [addColumns_column (·.lifecycleState) .lifecycleState (fun _ => rfl), if_neg legacy]
  intro row c hc
  cases c <;> first | rfl | exact absurd rfl hc

theorem healthAlpha_addColumns : (row.addColumns columns).healthAlpha =
    if .healthAlpha ∈ columns then row.healthAlpha else some (F64.ofRat 1) := by
  apply addColumns_column (·.healthAlpha) .healthAlpha (fun _ => rfl)
  intro row c hc
  cases c <;> first | rfl | exact absurd rfl hc

theorem healthBeta_addColumns : (row.addColumns columns).healthBeta =
    if .healthBeta ∈ columns then row.healthBeta else some (F64.ofRat 1) := by
  apply addColumns_column (·.healthBeta) .healthBeta (fun _ => rfl)
  intro row c hc
  cases c <;> first | rfl | exact absurd rfl hc

theorem status_addColumns : (row.addColumns columns).status = row.status :=
  addColumns_kept (·.status) (fun _ c => by cases c <;> rfl) row columns

/-- The state of a row of a legacy table after its migration. -/
theorem lifecycleState_migrated (row : StoredNode F) (legacy : .lifecycleState ∉ columns)
    (now : Time) :
    ((row.addColumns columns).applyUpdates now).lifecycleState =
      some (.lifecycle (carriedState row.status)) := by
  rw [applyUpdates_lifecycleState, mapLegacyStatus_of_candidate (lifecycleState_addColumns legacy),
    status_addColumns]

/-- A filled weight is the stored one or the prior. -/
theorem filled_weight {present : Prop} [Decidable present] {stored : Option F} {prior : F}
    (default : prior = F64.ofRat 1) :
    (if unweighted (if present then stored else some (F64.ofRat 1)) then some prior
      else if present then stored else some (F64.ofRat 1)) =
        if present ∧ unweighted stored = false then stored else some prior := by
  by_cases hpresent : present
  · simp only [hpresent, true_and]
    cases hweight : unweighted stored with
    | true => simp [hweight]
    | false => simp [hweight]
  · simp [hpresent, default]

theorem id_migrated (now : Time) : ((row.addColumns columns).applyUpdates now).id = row.id :=
  ((row.addColumns columns).applyUpdates_kept now (·.id) (fun _ => rfl) (fun _ => rfl)
    (fun _ => rfl) (fun _ => rfl) (fun _ => rfl) (fun _ => rfl) (fun _ => rfl)
    (fun _ => rfl)).trans (addColumns_kept (·.id) (fun _ c => by cases c <;> rfl) row columns)

theorem configHash_migrated (now : Time) :
    ((row.addColumns columns).applyUpdates now).configHash = row.configHash :=
  ((row.addColumns columns).applyUpdates_kept now (·.configHash) (fun _ => rfl) (fun _ => rfl)
    (fun _ => rfl) (fun _ => rfl) (fun _ => rfl) (fun _ => rfl) (fun _ => rfl)
    (fun _ => rfl)).trans
      (addColumns_kept (·.configHash) (fun _ c => by cases c <;> rfl) row columns)

theorem rawConfig_migrated (now : Time) :
    ((row.addColumns columns).applyUpdates now).rawConfig = row.rawConfig :=
  ((row.addColumns columns).applyUpdates_kept now (·.rawConfig) (fun _ => rfl) (fun _ => rfl)
    (fun _ => rfl) (fun _ => rfl) (fun _ => rfl) (fun _ => rfl) (fun _ => rfl)
    (fun _ => rfl)).trans
      (addColumns_kept (·.rawConfig) (fun _ c => by cases c <;> rfl) row columns)

/-- A row of a legacy table is preserved if its status has a state or another name. -/
theorem preserved_migrated (legacy : .lifecycleState ∉ columns) (now : Time)
    (inactive : row.status ≠ .lifecycle .active) (failed : row.status ≠ .lifecycle .probation) :
    Preserved columns now row ((row.addColumns columns).applyUpdates now) := by
  have hstate := row.lifecycleState_migrated legacy now
  constructor
  case id => exact id_migrated now
  case configHash => exact configHash_migrated now
  case rawConfig => exact rawConfig_migrated now
  case mapped =>
    revert hstate
    generalize (row.addColumns columns).applyUpdates now = after
    intro hstate
    cases hstatus : row.status with
    | lifecycle state =>
      rw [hstatus] at hstate inactive failed
      cases state with
      | candidate => exact hstate
      | active => exact absurd rfl inactive
      | probation => exact absurd rfl failed
      | testing | waitingForPort => exact ⟨.candidate, by decide, .inl hstate⟩
      | dormant | invalid | retired => trivial
    | dead | removed =>
      rw [hstatus] at hstate
      exact hstate
    | blank => trivial
  case alpha =>
    rw [applyUpdates_healthAlpha, hstate, healthAlpha_addColumns]
    exact filled_weight (priorAlpha_carriedState row.status)
  case beta =>
    rw [applyUpdates_healthBeta, hstate, healthBeta_addColumns]
    exact filled_weight (priorBeta_carriedState row.status)
  case leased => exact fun hactive => absurd hactive inactive

/-- An `ACTIVE` row and a row in `PROBATION` are candidates after their migration. -/
theorem not_preserved_migrated (legacy : .lifecycleState ∉ columns) (now : Time)
    (hidden : row.status = .lifecycle .active ∨ row.status = .lifecycle .probation) :
    ¬ Preserved columns now row ((row.addColumns columns).applyUpdates now) := by
  intro h
  have hmapped := h.mapped
  have hstate := row.lifecycleState_migrated legacy now
  rcases hidden with hstatus | hstatus <;>
  · rw [hstatus] at hmapped hstate
    cases hstate.symm.trans hmapped

end StoredNode

namespace NodesTable

variable {t : NodesTable F}

/-- The rows after a migration of a legacy table are settled, so that a second one, which
finds every column, changes none. -/
theorem migrate_again (legacy : .lifecycleState ∉ t.columns) (now later : Time) :
    ((t.migrate now).migrate later).rows = (t.migrate now).rows := by
  rw [migrate_rows (t.migrate now) later]
  conv_rhs => rw [← List.map_id (t.migrate now).rows]
  apply List.map_congr_left
  intro after hafter
  rw [migrate_rows, List.mem_map] at hafter
  obtain ⟨row, -, rfl⟩ := hafter
  rw [StoredNode.addColumns_of_complete _ (t.migrate_columns now)]
  exact (StoredNode.settled_applyUpdates (StoredNode.lifecycleState_addColumns legacy)
    now).applyUpdates later

theorem rows_preserved_iff (now : Time) :
    List.Forall₂ (StoredNode.Preserved t.columns now) t.rows (t.migrate now).rows ↔
      ∀ row ∈ t.rows, StoredNode.Preserved t.columns now row
        ((row.addColumns t.columns).applyUpdates now) := by
  rw [migrate_rows, List.forall₂_map_right_iff, List.forall₂_same]

/-- A migration preserves a legacy table exactly if no row is `ACTIVE` or in `PROBATION`: the
default of the new state column hides these two statuses. -/
theorem migration_preserves_iff (legacy : .lifecycleState ∉ t.columns) (now : Time) :
    t.PreservedByMigration now ↔
      ∀ row ∈ t.rows, row.status ≠ .lifecycle .active ∧ row.status ≠ .lifecycle .probation := by
  constructor
  · intro h row hr
    have hpreserved := (rows_preserved_iff now).mp h.rows row hr
    constructor
    · intro hactive
      exact StoredNode.not_preserved_migrated legacy now (.inl hactive) hpreserved
    · intro hprobation
      exact StoredNode.not_preserved_migrated legacy now (.inr hprobation) hpreserved
  · intro h
    refine ⟨(rows_preserved_iff now).mpr fun row hr => ?_, migrate_again legacy now⟩
    exact StoredNode.preserved_migrated legacy now (h row hr).1 (h row hr).2

end NodesTable

end Preservation

section Reading

def StoredState.lifecycle? : StoredState → Option LifecycleState
  | .lifecycle state => some state
  | _ => none

/-- The row that the service reads, if it has a known state and no `NULL` where the service
expects a value. -/
def StoredNode.read (row : StoredNode F) : Option (Node F) := do
  let status ← row.status.lifecycle?
  let lifecycleState ← row.lifecycleState.bind StoredState.lifecycle?
  let structurallyValid ← row.structurallyValid
  let healthAlpha ← row.healthAlpha
  let healthBeta ← row.healthBeta
  let healthScore ← row.healthScore
  let successStreak ← row.successStreak
  let failureStreak ← row.failureStreak
  let independentFailureCount ← row.independentFailureCount
  let upstreamMissingGenerations ← row.upstreamMissingGenerations
  some {
    id := row.id
    configHash := row.configHash
    rawConfig := row.rawConfig
    sourceSubs := row.sourceSubs
    status := status
    lifecycleState := lifecycleState
    structurallyValid := structurallyValid
    healthAlpha := healthAlpha
    healthBeta := healthBeta
    healthScore := healthScore
    testingFromState := row.testingFromState
    waitingFromState := row.waitingFromState
    testLeaseUntil := row.testLeaseUntil
    publicationLeaseUntil := row.publicationLeaseUntil
    activatedAt := row.activatedAt
    lastSuccessAt := row.lastSuccessAt
    lastRealDownloadAt := row.lastRealDownloadAt
    lastFailureClass := row.lastFailureClass
    lastFailureRunId := row.lastFailureRunId
    successStreak := successStreak
    failureStreak := failureStreak
    independentFailureCount := independentFailureCount
    nextTestAt := row.nextTestAt
    lastTestAt := row.lastTestAt
    relayDelayMs := row.relayDelayMs
    downloadKbps := row.downloadKbps
    mainPort := row.mainPort
    metadataLeaseUntil := row.metadataLeaseUntil
    exitInfoFetchedAt := row.exitInfoFetchedAt
    createdAt := row.createdAt
    lastSeenGeneration := row.lastSeenGeneration
    upstreamMissingGenerations := upstreamMissingGenerations
    retiredAt := row.retiredAt
    tombstoneUntil := row.tombstoneUntil }

/-- What the service reads of a row that it can read. -/
theorem StoredNode.read_eq_some {row : StoredNode F} {node : Node F} (h : row.read = some node) :
    node.id = row.id ∧ node.configHash = row.configHash ∧ node.rawConfig = row.rawConfig ∧
      row.lifecycleState = some (.lifecycle node.lifecycleState) ∧
      node.waitingFromState = row.waitingFromState ∧
      node.lastSeenGeneration = row.lastSeenGeneration := by
  unfold StoredNode.read at h
  simp only [bind, Option.bind_eq_some_iff] at h
  obtain ⟨_, -, state, ⟨stored, hstored, hs⟩, _, -, _, -, _, -, _, -, _, -, _, -, _, -, _, -,
    h⟩ := h
  cases Option.some.inj h
  have hstate : stored = .lifecycle state := by
    cases stored with
    | lifecycle s => rw [Option.some.inj hs]
    | dead | removed | blank => cases hs
  exact ⟨rfl, rfl, rfl, hstored.trans (congrArg some hstate), rfl, rfl⟩

/-- A row that stands in a claimable state is eligible as soon as it is valid, due and not
leased to a test. -/
theorem StoredNode.Claimable.eligible {row : StoredNode F} {node : Node F} (h : row.Claimable)
    (read : row.read = some node) {now : Time} (valid : node.structurallyValid = true)
    (due : node.due now = true) (free : node.leaseFree now = true) :
    ∃ state ∈ queueStates, node.eligible state now = true := by
  obtain ⟨-, -, -, hstate, hwaiting, -⟩ := StoredNode.read_eq_some read
  obtain ⟨state, hqueue, hdirect | ⟨hwait, hfrom⟩⟩ := h
  · refine ⟨state, hqueue, ?_⟩
    rw [hstate] at hdirect
    obtain rfl := StoredState.lifecycle.inj (Option.some.inj hdirect)
    simp [Node.eligible, Node.eligibleDirectly, valid, due, free]
  · refine ⟨state, hqueue, ?_⟩
    rw [hstate] at hwait
    have hport := StoredState.lifecycle.inj (Option.some.inj hwait)
    simp [Node.eligible, Node.eligibleWaiting, hport, hwaiting, hfrom, valid, due, free]

end Reading

/-- A row of a legacy table. -/
def legacyRow (id : String) (status : StoredState) : StoredNode ℚ where
  id := id
  configHash := "sha256:" ++ id
  rawConfig := "vless://fixture".toList
  sourceSubs := ["default"]
  status := status
  createdAt := 0
  lastDownloadTestAt := some 0

/-- A table with one row of each of the other statuses. -/
def restingTable : NodesTable ℚ where
  columns := [.nextTestAt, .lastDownloadTestAt]
  rows := [legacyRow "a" (.lifecycle .candidate), legacyRow "b" (.lifecycle .testing),
    legacyRow "c" (.lifecycle .waitingForPort), legacyRow "d" .dead, legacyRow "e" .removed]

theorem NodesTable.migration_preserves_iff_resting :
    restingTable.PreservedByMigration (hours 1) :=
  (NodesTable.migration_preserves_iff (by decide) (hours 1)).mpr (by decide)

/-- An `ACTIVE` row that was downloaded from an hour ago. -/
theorem NodesTable.migration_not_preserving :
    ¬ ∀ (t : NodesTable ℚ) (now : Time), .lifecycleState ∉ t.columns →
      t.PreservedByMigration now := by
  intro h
  have hpreserved := (h ⟨[.nextTestAt, .lastDownloadTestAt],
    [legacyRow "a" (.lifecycle .active)]⟩ (hours 1) (by decide)).rows
  rw [NodesTable.rows_preserved_iff] at hpreserved
  exact StoredNode.not_preserved_migrated (by decide) (hours 1) (.inl rfl)
    (hpreserved _ (List.mem_singleton.mpr rfl))

end ProxyFleet
